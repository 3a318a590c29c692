import ComponentAbi.Proofs.Except
import ComponentAbi.Proofs.Plan.Semantics
import Mathlib.Data.List.Forall2

/-!
# Temporaries

A plan defines each of its temporaries once, in the order of their numbers. So whatever is defined
keeps what it holds (`Env.Keeps`), and after some of a plan nothing is defined but the temporaries
that were handed out for it (`Env.Below`).

`Env.Holds` says what some temporaries hold; what it says still holds later on (`Env.Holds.mono`).
-/

namespace ComponentAbi

namespace Env

variable {env env' env'' : Env} {k k' : Nat} {l : Local} {ls ls' : List Local} {es es' : List Entry}

/-! ### What a temporary holds -/

theorem get_eq {e : Entry} (h : env l = some e) : env.get l = .ok e := by
  rw [get, h]

theorem set_of_ne {l' : Local} (h : l' ≠ l) (env : Env) (e : Entry) : env.set l e l' = env l' :=
  if_neg h

/-- Nothing is defined but some of the first `k` temporaries. -/
def Below (env : Env) (k : Nat) : Prop :=
  ∀ l, k ≤ l.index → env l = none

/-- What is defined keeps what it holds. -/
def Keeps (env env' : Env) : Prop :=
  ∀ l e, env l = some e → env' l = some e

theorem Below.mono (h : env.Below k) (hk : k ≤ k') : env.Below k' :=
  fun l hl => h l (Nat.le_trans hk hl)

theorem Below.set (h : env.Below k) (hl : l.index < k) (e : Entry) : (env.set l e).Below k := by
  intro l' hl'
  rw [set_of_ne fun he => by rw [he] at hl'; omega]
  exact h l' hl'

/-- Defining the next temporary. -/
theorem Below.next (h : env.Below k) (e : Entry) : (env.set ⟨k⟩ e).Below (k + 1) :=
  (h.mono (Nat.le_succ k)).set (Nat.lt_succ_self k) e

theorem Keeps.refl (env : Env) : env.Keeps env :=
  fun _ _ h => h

theorem Keeps.trans (h : env.Keeps env') (h' : env'.Keeps env'') : env.Keeps env'' :=
  fun l e hl => h' l e (h l e hl)

theorem Keeps.set (h : env.Keeps env') (hl : env l = none) (e : Entry) :
    env.Keeps (env'.set l e) := by
  intro l' e' hl'
  rw [set_of_ne fun he => by rw [he, hl] at hl'; cases hl']
  exact h l' e' hl'

/-- The temporaries hold the entries. -/
def Holds (env : Env) : List Local → List Entry → Prop :=
  List.Forall₂ fun l e => env l = some e

theorem Holds.mono (h : env.Holds ls es) (hk : env.Keeps env') : env'.Holds ls es :=
  List.Forall₂.imp (fun l e => hk l e) h

theorem Holds.append (h : env.Holds ls es) (h' : env.Holds ls' es') :
    env.Holds (ls ++ ls') (es ++ es') :=
  List.rel_append h h'

theorem Holds.take {ws rest : List Word} (h : env.Holds ls ((ws ++ rest).map .word)) :
    env.Holds (ls.take ws.length) (ws.map .word) := by
  rw [List.map_append] at h
  have := List.forall₂_take_append _ _ _ h
  rwa [List.length_map] at this

theorem Holds.drop {ws rest : List Word} (h : env.Holds ls ((ws ++ rest).map .word)) :
    env.Holds (ls.drop ws.length) (rest.map .word) := by
  rw [List.map_append] at h
  have := List.forall₂_drop_append _ _ _ h
  rwa [List.length_map] at this

end Env

end ComponentAbi
