import ComponentAbi.Proofs.Plan.Contents
import ComponentAbi.Proofs.Plan.Generation
import ComponentAbi.Proofs.Plan.Storing

/-!
# What generation emits

`PlanM.Meets` says of a generation that it does not go back in the sequence of temporaries, not even
if it fails, and what is so of what it gives if it succeeds.

`Emitted` says that instructions find what they need and define temporaries that were handed out
between two points of the sequence, each of them once. All that is generated for a shape is emitted
like that: `Plan.storesTyped_store`, `Plan.loadsTyped_load`, `Plan.freesTyped_freeStored`,
`Plan.lowersTyped_lower`, `Plan.liftsTyped_lift` and `Plan.freesWordsTyped_freeFlat`.
-/

namespace ComponentAbi

open Content

namespace PlanM

variable {α β : Type} {k k' : Nat} {P Q : α → Nat → Prop} {R : β → Nat → Prop}

/-! ### Generations that may fail -/

/-- With `k` temporaries handed out, the generation does not go back in the sequence, and if it
succeeds, what it gives is as said. -/
def Meets (x : PlanM α) (k : Nat) (Q : α → Nat → Prop) : Prop :=
  k ≤ (x.run.run k).2 ∧ ∀ a k', x.Gives k a k' → Q a k'

theorem meets_pure {a : α} (h : Q a k) : (pure a : PlanM α).Meets k Q := by
  refine ⟨Nat.le_refl k, fun b k' hb => ?_⟩
  obtain ⟨rfl, rfl⟩ := gives_pure.1 hb
  exact h

theorem meets_throw (e : AbiError) : (throw e : PlanM α).Meets k Q :=
  ⟨Nat.le_refl k, fun _ _ h => absurd h not_gives_throw⟩

theorem Meets.mono {x : PlanM α} (h : x.Meets k P) (hp : ∀ a k', P a k' → Q a k') : x.Meets k Q :=
  ⟨h.1, fun a k' hg => hp a k' (h.2 a k' hg)⟩

theorem Meets.bind {x : PlanM α} {f : α → PlanM β} (hx : x.Meets k Q)
    (hf : ∀ a k', Q a k' → (f a).Meets k' R) : (x >>= f).Meets k R := by
  constructor
  · obtain ⟨hle, hq⟩ := hx
    have hrun : ((x >>= f).run.run k).2 = match x.run.run k with
        | (.ok a, k₁) => ((f a).run.run k₁).2
        | (.error _, k₁) => k₁ := by
      simp only [Bind.bind, ExceptT.bind, ExceptT.mk, ExceptT.run, StateT.run, StateT.bind,
        ExceptT.bindCont]
      obtain ⟨r, k₁⟩ := x k
      cases r <;> rfl
    rw [hrun]
    cases hr : x.run.run k with
    | mk r k₁ =>
      rw [hr] at hle
      cases r with
      | error e => exact hle
      | ok a => exact Nat.le_trans hle (hf a k₁ (hq a k₁ hr)).1
  · intro b k' h
    obtain ⟨a, k₁, ha, hb⟩ := gives_bind.1 h
    exact (hf a k₁ (hx.2 a k₁ ha)).2 b k' hb

theorem meets_liftM {x : Except AbiError α} : (liftM x : PlanM α).Meets k fun a k' =>
    x = .ok a ∧ k' = k :=
  ⟨Nat.le_refl k, fun _ _ h => gives_liftM.1 h⟩

theorem meets_bind_liftM {x : Except AbiError α} {f : α → PlanM β}
    (hf : ∀ a, x = .ok a → (f a).Meets k R) : ((liftM x : PlanM α) >>= f).Meets k R :=
  meets_liftM.bind fun a _ ⟨ha, hk⟩ => hk ▸ hf a ha

theorem meets_bind_fresh {f : Local → PlanM β} (hf : (f ⟨k⟩).Meets (k + 1) R) :
    (fresh >>= f).Meets k R := by
  have hfresh : fresh.Meets k fun l k' => l = ⟨k⟩ ∧ k' = k + 1 :=
    ⟨Nat.le_succ k, fun _ _ h => gives_fresh.1 h⟩
  exact hfresh.bind fun l k' ⟨hl, hk⟩ => hl ▸ hk ▸ hf

theorem meets_bind_freshFor {payload : Option α} {f : Option Local → PlanM β}
    (hnone : payload = none → (f none).Meets k R)
    (hsome : ∀ a, payload = some a → (f (some ⟨k⟩)).Meets (k + 1) R) :
    (freshFor payload >>= f).Meets k R := by
  cases payload with
  | none => exact hnone rfl
  | some a => exact meets_bind_fresh (f := fun l => pure (some l) >>= f) (hsome a rfl)

theorem meets_bind_next {ls : List Local} {f : Local × List Local → PlanM β}
    (hf : ∀ l rest, ls = l :: rest → (f (l, rest)).Meets k R) : (next ls >>= f).Meets k R := by
  cases ls with
  | nil => exact (meets_throw (Q := fun _ _ => False) _).bind fun _ _ h => h.elim
  | cons l rest => exact hf l rest rfl

theorem meets_bind_take {ls : List Local} {n : Nat} {f : List Local × List Local → PlanM β}
    (hf : n ≤ ls.length → (f (ls.take n, ls.drop n)).Meets k R) :
    (take ls n >>= f).Meets k R := by
  have htake : (take ls n).Meets k fun r k' =>
      n ≤ ls.length ∧ r = (ls.take n, ls.drop n) ∧ k' = k := by
    unfold take
    split
    · exact (meets_throw (Q := fun _ _ => False) _).bind fun _ _ h => h.elim
    · rename_i hlt
      exact meets_pure ⟨Nat.not_lt.1 hlt, rfl, rfl⟩
  exact htake.bind fun r k' ⟨hle, hr, hk⟩ => hr ▸ hk ▸ hf hle

end PlanM

open PlanM

/-! ### Numbers -/

/-- The temporaries were handed out between two points of the sequence, and none is there twice. -/
structure Numbered (k : Nat) (ls : List Local) (k' : Nat) : Prop where
  /-- The second point is not before the first. -/
  le : k ≤ k'
  /-- Each was handed out between the two. -/
  within : ∀ l ∈ ls, k ≤ l.index ∧ l.index < k'
  /-- None is there twice. -/
  nodup : ls.Nodup

section Numbered

variable {k k₁ k' n : Nat} {ls ls' : List Local}

theorem numbered_nil (h : k ≤ k') : Numbered k [] k' :=
  ⟨h, List.forall_mem_nil _, List.nodup_nil⟩

theorem Numbered.perm (h : Numbered k ls k') (hp : ls'.Perm ls) : Numbered k ls' k' :=
  ⟨h.le, fun l hl => h.within l (hp.mem_iff.1 hl), hp.nodup_iff.2 h.nodup⟩

theorem Numbered.append (h : Numbered k ls k₁) (h' : Numbered k₁ ls' k') :
    Numbered k (ls ++ ls') k' := by
  refine ⟨Nat.le_trans h.le h'.le, fun l hl => ?_, List.nodup_append'.2 ⟨h.nodup, h'.nodup, ?_⟩⟩
  · obtain hl | hl := List.mem_append.1 hl
    · exact ⟨(h.within l hl).1, Nat.lt_of_lt_of_le (h.within l hl).2 h'.le⟩
    · exact ⟨Nat.le_trans h.le (h'.within l hl).1, (h'.within l hl).2⟩
  · intro l hl hl'
    exact absurd (h.within l hl).2 (Nat.not_lt.2 (h'.within l hl').1)

theorem numbered_singleton (k : Nat) : Numbered k [⟨k⟩] (k + 1) :=
  ⟨Nat.le_succ k, List.forall_mem_singleton.2 ⟨Nat.le_refl k, Nat.lt_succ_self k⟩,
    List.nodup_singleton _⟩

theorem numbered_pair (k : Nat) : Numbered k [⟨k⟩, ⟨k + 1⟩] (k + 2) :=
  (numbered_singleton k).append (numbered_singleton (k + 1))

theorem numbered_range' (k n : Nat) : Numbered k ((List.range' k n).map Local.mk) (k + n) := by
  refine ⟨Nat.le_add_right k n, fun l hl => ?_, ?_⟩
  · obtain ⟨i, hi, rfl⟩ := List.mem_map.1 hl
    exact List.mem_range'_1.1 hi
  · exact (List.nodup_range' (s := k) (n := n)).map fun i j h => Local.mk.inj h

end Numbered

theorem PlanM.meets_freshList (n k : Nat) :
    (freshList n).Meets k fun ls k' => ls.length = n ∧ Numbered k ls k' := by
  have hle : ∀ (xs : List Nat) k, k ≤ ((xs.mapM fun _ => fresh).run.run k).2 := by
    intro xs
    induction xs with
    | nil => exact Nat.le_refl
    | cons x xs ih =>
      intro k
      have h : ((xs.mapM fun _ => fresh) : PlanM (List Local)).Meets (k + 1) fun _ _ => True :=
        ⟨ih (k + 1), fun _ _ _ => trivial⟩
      rw [List.mapM_cons]
      exact (meets_bind_fresh (h.bind fun _ _ _ => meets_pure (Q := fun _ _ => True) trivial)).1
  refine ⟨hle _ k, fun ls k' h => ?_⟩
  obtain ⟨rfl, rfl⟩ := gives_freshList h
  exact ⟨by simp, numbered_range' k n⟩

/-! ### Instructions -/

variable (abi : Abi)

/-- The instructions find what they need, and they define each temporary once, of those that were
handed out between two points of the sequence. -/
structure Emitted (Γ : Contents) (code : List Instruction) (Γ' : Contents) (k k' : Nat) :
    Prop where
  /-- They find what they need. -/
  typed : ∀ f, TypedCode abi f Γ code Γ'
  /-- They define each temporary once. -/
  numbered : Numbered k (definedIn code) k'

/-- The arms are as expected, and they define each temporary once, of those that were handed out
between two points of the sequence. -/
structure EmittedArms (Γ : Contents) (arms : List Arm) (types : List ArmType) (k k' : Nat) :
    Prop where
  /-- They are as expected. -/
  typed : ∀ f, TypedArms abi f Γ arms types
  /-- They define each temporary once. -/
  numbered : Numbered k ((arms.map Arm.toBody).flatMap Body.definitions) k'

variable {abi} {α β : Type} {k k₁ k' : Nat} {Γ Γ' Γ'' Δ : Contents} {i : Instruction}
  {code more : List Instruction} {arms arms' : List Arm} {types types' : List ArmType}

theorem emitted_nil (Γ : Contents) (k : Nat) : Emitted abi Γ [] Γ k k :=
  ⟨fun _ => .nil Γ, numbered_nil (Nat.le_refl k)⟩

theorem Emitted.subset (h : Emitted abi Γ code Γ' k k') : Γ ⊆ Γ' :=
  (h.typed {}).subset

theorem Emitted.append (h : Emitted abi Γ code Γ' k k₁) (h' : Emitted abi Γ' more Γ'' k₁ k') :
    Emitted abi Γ (code ++ more) Γ'' k k' := by
  refine ⟨fun f => (h.typed f).append (h'.typed f), ?_⟩
  rw [definedIn_append]
  exact h.numbered.append h'.numbered

/-- One instruction, whose bodies define the rest of what it defines. -/
theorem TypedStep.emitted (h : ∀ f, TypedStep abi f Γ i Δ)
    (hn : Numbered k (i.results ++ i.bodies.flatMap Body.definitions) k') :
    Emitted abi Γ [i] (Δ ++ Γ) k k' :=
  ⟨fun f => (h f).single, hn.perm (by simpa using definedIn_cons i [])⟩

/-- An instruction without bodies. -/
theorem TypedStep.emitted_results (h : ∀ f, TypedStep abi f Γ i Δ) (hb : i.bodies = [])
    (hn : Numbered k i.results k') : Emitted abi Γ [i] (Δ ++ Γ) k k' :=
  emitted h (by rwa [hb, List.flatMap_nil, List.append_nil])

/-- An instruction that defines nothing. -/
theorem TypedStep.emitted_nil (h : ∀ f, TypedStep abi f Γ i []) (hb : i.bodies = [])
    (k : Nat) : Emitted abi Γ [i] Γ k k := by
  refine emitted_results h hb ?_
  rw [← (h {}).scoped.2.2]
  exact numbered_nil (Nat.le_refl k)

/-- An instruction that defines the next temporary. -/
theorem TypedStep.emitted_next {c : Content} (h : ∀ f, TypedStep abi f Γ i [(⟨k⟩, c)])
    (hb : i.bodies = []) : Emitted abi Γ [i] ((⟨k⟩, c) :: Γ) k (k + 1) := by
  refine emitted_results h hb ?_
  rw [← (h {}).scoped.2.2]
  exact numbered_singleton k

theorem emittedArms_nil (Γ : Contents) (k : Nat) : EmittedArms abi Γ [] [] k k :=
  ⟨fun _ => .nil Γ, numbered_nil (Nat.le_refl k)⟩

theorem EmittedArms.append (h : EmittedArms abi Γ arms types k k₁)
    (h' : EmittedArms abi Γ arms' types' k₁ k') :
    EmittedArms abi Γ (arms ++ arms') (types ++ types') k k' := by
  refine ⟨fun f => (h.typed f).append (h'.typed f), ?_⟩
  rw [List.map_append, List.flatMap_append]
  exact h.numbered.append h'.numbered

/-- One arm. -/
theorem Emitted.arm (type : ArmType) (payload : Option Local) (yields : List Local)
    (h : Emitted abi (payload.toList.zip (natives type.payload.toList) ++ Γ) code Γ' k₁ k')
    (hl : payload.toList.length = type.payload.toList.length)
    (hn : Numbered k payload.toList k₁) (hy : Γ'.Hold yields type.yields) :
    EmittedArms abi Γ [⟨type.index, type.label, payload, code, yields⟩] [type] k k' :=
  ⟨fun f => .cons hl (h.typed f) hy (.nil Γ), by
    rw [List.map_singleton, List.flatMap_singleton]
    exact hn.append h.numbered⟩

/-! ### Several generations -/

/-- Instructions that are generated for each of some things. -/
theorem PlanM.meets_mapM_code {xs : List α} {g : α → PlanM (List Instruction)}
    (hg : ∀ x ∈ xs, ∀ Γ' k, Γ ⊆ Γ' → (g x).Meets k fun code k' =>
      ∃ Γ'', Emitted abi Γ' code Γ'' k k') (k : Nat) :
    (xs.mapM g).Meets k fun codes k' => ∃ Γ', Emitted abi Γ codes.flatten Γ' k k' := by
  induction xs generalizing Γ k with
  | nil => exact meets_pure ⟨Γ, emitted_nil Γ k⟩
  | cons x xs ih =>
    obtain ⟨hx, hxs⟩ := List.forall_mem_cons.1 hg
    rw [List.mapM_cons]
    refine (hx Γ k (List.Subset.refl Γ)).bind fun code k₁ ⟨Γ₁, hcode⟩ => ?_
    have hrest := ih fun x hm Γ' k hs => hxs x hm Γ' k (List.Subset.trans hcode.subset hs)
    exact (hrest k₁).bind fun codes k' ⟨Γ', hcodes⟩ => meets_pure ⟨Γ', hcode.append hcodes⟩

/-- Instructions that are generated for each of some things and define something for it. -/
theorem PlanM.meets_mapM_values {xs : List α} {g : α → PlanM (List Instruction × Local)}
    {c : α → Content}
    (hg : ∀ x ∈ xs, ∀ Γ' k, Γ ⊆ Γ' → (g x).Meets k fun r k' =>
      ∃ Γ'', Emitted abi Γ' r.1 Γ'' k k' ∧ (r.2, c x) ∈ Γ'') (k : Nat) :
    (xs.mapM g).Meets k fun rs k' => ∃ Γ', Emitted abi Γ (rs.map (·.1)).flatten Γ' k k' ∧
      Γ'.Hold (rs.map (·.2)) (xs.map c) := by
  induction xs generalizing Γ k with
  | nil => exact meets_pure ⟨Γ, emitted_nil Γ k, .nil⟩
  | cons x xs ih =>
    obtain ⟨hx, hxs⟩ := List.forall_mem_cons.1 hg
    rw [List.mapM_cons]
    refine (hx Γ k (List.Subset.refl Γ)).bind fun r k₁ ⟨Γ₁, hr, hmem⟩ => ?_
    have hrest := ih fun x hm Γ' k hs => hxs x hm Γ' k (List.Subset.trans hr.subset hs)
    exact (hrest k₁).bind fun rs k' ⟨Γ', hrs, hold⟩ => meets_pure
      ⟨Γ', hr.append hrs, .cons (hrs.subset hmem) hold⟩

/-- Instructions that are generated for each of some things and define the words of a shape. -/
theorem PlanM.meets_mapM_words {xs : List α} {g : α → PlanM (List Instruction × List Local)}
    {c : α → String × Shape}
    (hg : ∀ x ∈ xs, ∀ Γ' k, Γ ⊆ Γ' → (g x).Meets k fun r k' =>
      ∃ Γ'' kinds, Emitted abi Γ' r.1 Γ'' k k' ∧ (c x).2.flatten = .ok kinds ∧
        Γ''.Hold r.2 (words kinds)) (k : Nat) :
    (xs.mapM g).Meets k fun rs k' => ∃ Γ' kinds,
      Emitted abi Γ (rs.map (·.1)).flatten Γ' k k' ∧
        Shape.flattenFields (xs.map c) = .ok kinds ∧
          Γ'.Hold (rs.map (·.2)).flatten (words kinds) := by
  induction xs generalizing Γ k with
  | nil => exact meets_pure ⟨Γ, [], emitted_nil Γ k, rfl, .nil⟩
  | cons x xs ih =>
    obtain ⟨hx, hxs⟩ := List.forall_mem_cons.1 hg
    rw [List.mapM_cons]
    refine (hx Γ k (List.Subset.refl Γ)).bind fun r k₁ ⟨Γ₁, kinds, hr, hk, hw⟩ => ?_
    have hrest := ih fun x hm Γ' k hs => hxs x hm Γ' k (List.Subset.trans hr.subset hs)
    refine (hrest k₁).bind fun rs k' ⟨Γ', more, hrs, hm, hold⟩ => meets_pure
      ⟨Γ', kinds ++ more, hr.append hrs, ?_, ?_⟩
    · rw [List.map_cons, Shape.flattenFields, hk, hm]
      rfl
    · rw [words_append]
      exact (hw.mono hrs.subset).append hold

/-- Arms that are generated for each of some cases. -/
theorem PlanM.meets_mapM_arms {xs : List α} {g : α → PlanM Arm} {type : α → ArmType}
    (hg : ∀ x ∈ xs, ∀ k, (g x).Meets k fun arm k' => EmittedArms abi Γ [arm] [type x] k k')
    (k : Nat) :
    (xs.mapM g).Meets k fun arms k' => EmittedArms abi Γ arms (xs.map type) k k' := by
  induction xs generalizing k with
  | nil => exact meets_pure (emittedArms_nil Γ k)
  | cons x xs ih =>
    obtain ⟨hx, hxs⟩ := List.forall_mem_cons.1 hg
    rw [List.mapM_cons]
    exact (hx k).bind fun arm k₁ harm => (ih hxs k₁).bind fun arms k' harms =>
      meets_pure (harm.append harms)

/-- Arms that are generated for some of the cases. -/
theorem PlanM.meets_filterMapM_arms {xs : List α} {g : α → PlanM (Option Arm)}
    {type : α → ArmType}
    (hg : ∀ x ∈ xs, ∀ k, (g x).Meets k fun arm? k' => ∃ types : List ArmType,
      types.Sublist [type x] ∧ EmittedArms abi Γ arm?.toList types k k') (k : Nat) :
    (xs.filterMapM g).Meets k fun arms k' => ∃ types : List ArmType,
      types.Sublist (xs.map type) ∧ EmittedArms abi Γ arms types k k' := by
  induction xs generalizing k with
  | nil => exact meets_pure ⟨[], .slnil, emittedArms_nil Γ k⟩
  | cons x xs ih =>
    obtain ⟨hx, hxs⟩ := List.forall_mem_cons.1 hg
    rw [List.filterMapM_cons]
    refine (hx k).bind fun arm? k₁ ⟨types, hsub, harm⟩ => ?_
    cases arm? with
    | none =>
      refine (ih hxs k₁).mono fun arms k' ⟨types', hsub', harms⟩ => ?_
      exact ⟨types ++ types', hsub.append hsub', harm.append harms⟩
    | some arm =>
      refine (ih hxs k₁).bind fun arms k' ⟨types', hsub', harms⟩ => meets_pure ?_
      exact ⟨types ++ types', hsub.append hsub', harm.append harms⟩

/-! ### Temporaries in rows -/

namespace Contents

variable {cs : List Content} {ls : List Local} {xs : List α} {g : α → Content}

theorem Hold.of_mem_zip (h : Γ.Hold ls (xs.map g)) {l : Local} {x : α} (hm : (l, x) ∈ ls.zip xs) :
    (l, g x) ∈ Γ :=
  (List.forall₂_iff_zip.1 (List.forall₂_map_right_iff.1 h)).2 hm

theorem Hold.of_mem_zip_swap (h : Γ.Hold ls (xs.map g)) {x : α} {l : Local}
    (hm : (x, l) ∈ xs.zip ls) : (l, g x) ∈ Γ :=
  (List.forall₂_iff_zip.1 (List.forall₂_map_right_iff.1 h).flip).2 hm

theorem Hold.take_drop {kinds more : List CoreType} (h : Γ.Hold ls (words (kinds ++ more))) :
    Γ.Hold (ls.take kinds.length) (words kinds) ∧ Γ.Hold (ls.drop kinds.length) (words more) := by
  rw [words_append] at h
  rw [← List.length_map (f := word)]
  exact ⟨List.forall₂_take_append _ _ _ h, List.forall₂_drop_append _ _ _ h⟩

end Contents

/-- What is so of the first of each pair. -/
theorem map_zip_fst {γ : Type} {xs : List α} {ys : List γ} (h : ys.length = xs.length)
    (g : α → β) : ((xs.zip ys).map fun x => g x.1) = xs.map g := by
  have hle := Nat.le_of_eq h.symm
  rw [← List.map_fst_zip hle, List.map_map, List.map_fst_zip hle]
  rfl

namespace Bitcast

/-- A cast goes between the kinds it was asked for, and the trivial cast between equal ones. -/
theorem ends_of_between {kind slot : CoreType} {c : Bitcast} (h : between kind slot = some c) :
    c = none ∧ kind = slot ∨ c ≠ none ∧ c.ends = some (kind, slot) := by
  cases kind <;> cases slot <;> cases h <;> simp [ends]

end Bitcast

namespace Plan

/-! ### Words in shared slots -/

variable (abi) in
theorem meets_cast {word : Local} {kind slot : CoreType} (back : Bool)
    (h : (word, .word (if back then slot else kind)) ∈ Γ) (k : Nat) :
    (cast word kind slot back).Meets k fun r k' => ∃ Γ', Emitted abi Γ r.1 Γ' k k' ∧
      (r.2, .word (if back then kind else slot)) ∈ Γ' := by
  rw [cast]
  cases hthere : Bitcast.between kind slot with
  | none => exact meets_throw _
  | some there =>
    have hback : Bitcast.between slot kind = some there.inverse := by
      rw [← Bitcast.between_inverse, hthere]
      rfl
    have hends : ∀ c, c = (if back then there.inverse else there) →
        Bitcast.between (if back then slot else kind) (if back then kind else slot) = some c := by
      rintro c rfl
      cases back
      · exact hthere
      · exact hback
    dsimp only
    generalize hc : (if back = true then there.inverse else there) = c
    -- A cast that changes nothing is left out: the kinds on both ends are the same then.
    obtain ⟨rfl, heq⟩ | ⟨hne, hends⟩ := Bitcast.ends_of_between (hends c hc.symm)
    · rw [if_pos rfl]
      exact meets_pure ⟨Γ, emitted_nil Γ k, heq ▸ h⟩
    · rw [if_neg hne]
      have hcast : Emitted abi Γ [.bitcast c word ⟨k⟩] _ k (k + 1) :=
        TypedStep.emitted_next (fun _ => .bitcast ⟨k⟩ hends h) rfl
      exact meets_bind_fresh (meets_pure ⟨_, hcast, List.mem_cons_self⟩)

variable (abi) in
theorem meets_fillSlots {slots : List CoreType} {ws : List (Local × CoreType)}
    (h : ∀ w ∈ ws, (w.1, .word w.2) ∈ Γ) (k : Nat) :
    (fillSlots slots ws).Meets k fun r k' => ∃ Γ', Emitted abi Γ r.1 Γ' k k' ∧
      Γ'.Hold r.2 (words slots) := by
  induction slots generalizing ws Γ k with
  | nil => exact meets_pure ⟨Γ, emitted_nil Γ k, .nil⟩
  | cons slot slots ih =>
    cases ws with
    | nil =>
      -- No words are left: the slot gets a zero of its own kind.
      have hconst : Emitted abi Γ [.const slot 0 ⟨k⟩] _ k (k + 1) :=
        TypedStep.emitted_next (fun _ => .const slot 0 ⟨k⟩) rfl
      have hfill := @ih ((⟨k⟩, .word slot) :: Γ) [] (List.forall_mem_nil _) (k + 1)
      refine meets_bind_fresh (hfill.bind fun r k' ⟨Γ', hr, hold⟩ => meets_pure ?_)
      exact ⟨Γ', hconst.append hr, .cons (hr.subset List.mem_cons_self) hold⟩
    | cons w ws =>
      obtain ⟨hw, hws⟩ := List.forall_mem_cons.1 h
      refine (meets_cast abi false hw k).bind fun first k₁ ⟨Γ₁, hfirst, hdst⟩ => ?_
      refine (ih (fun w hm => hfirst.subset (hws w hm)) k₁).bind
        fun r k' ⟨Γ', hr, hold⟩ => meets_pure ?_
      exact ⟨Γ', hfirst.append hr, .cons (hr.subset hdst) hold⟩

variable (abi) in
theorem meets_drainSlots {kinds slots : List CoreType} {ws : List Local}
    (hj : joinWords kinds slots = slots) (h : Γ.Hold ws (words slots)) (k : Nat) :
    (drainSlots kinds ws slots).Meets k fun r k' => ∃ Γ', Emitted abi Γ r.1 Γ' k k' ∧
      Γ'.Hold r.2 (words kinds) := by
  induction kinds generalizing ws slots Γ k with
  | nil => exact meets_pure ⟨Γ, emitted_nil Γ k, .nil⟩
  | cons kind kinds ih =>
    cases slots with
    | nil => cases hj
    | cons slot slots =>
      cases ws with
      | nil => cases h
      | cons w ws =>
        obtain ⟨hw, hws⟩ := List.forall₂_cons.1 h
        obtain ⟨-, hrest⟩ := List.cons.inj hj
        refine (meets_cast abi true hw k).bind
          fun first k₁ ⟨Γ₁, hfirst, hdst⟩ => ?_
        refine (ih hrest (Contents.Hold.mono hws hfirst.subset) k₁).bind
          fun r k' ⟨Γ', hr, hold⟩ => meets_pure ?_
        exact ⟨Γ', hfirst.append hr, .cons (hr.subset hdst) hold⟩

/-! ### Memory accesses -/

variable (abi) in
theorem meets_loadWord {base : Local} (width : MemoryWidth) (offset : Nat)
    (h : (base, .word .i32) ∈ Γ) (k : Nat) :
    (loadWord width base offset).Meets k fun r k' => ∃ Γ', Emitted abi Γ r.1 Γ' k k' ∧
      (r.2, .word width.core) ∈ Γ' :=
  meets_bind_fresh (meets_pure
    ⟨_, TypedStep.emitted_next (fun _ => .load width offset ⟨k⟩ h) rfl, List.mem_cons_self⟩)

variable (abi) in
theorem meets_loadPair {base : Local} (offset : Nat) (h : (base, .word .i32) ∈ Γ) (k : Nat) :
    (loadPair base offset).Meets k fun r k' => ∃ Γ', Emitted abi Γ r.1 Γ' k k' ∧
      (r.2.1, .word .i32) ∈ Γ' ∧ (r.2.2, .word .i32) ∈ Γ' := by
  have hptr : Emitted abi Γ [.load .i32 base offset ⟨k⟩] _ k (k + 1) :=
    TypedStep.emitted_next (fun _ => .load .i32 offset ⟨k⟩ h) rfl
  have hlen : Emitted abi _ [.load .i32 base (offset + 4) ⟨k + 1⟩] _ (k + 1) (k + 2) :=
    TypedStep.emitted_next (fun _ => .load .i32 (offset + 4) ⟨k + 1⟩ (hptr.subset h)) rfl
  exact meets_bind_fresh <| meets_bind_fresh <| meets_pure
    ⟨_, hptr.append hlen, List.mem_cons_of_mem _ List.mem_cons_self, List.mem_cons_self⟩

theorem emitted_storePair {ptr len base : Local} (offset : Nat) (hp : (ptr, .word .i32) ∈ Γ)
    (hl : (len, .word .i32) ∈ Γ) (hb : (base, .word .i32) ∈ Γ) (k : Nat) :
    Emitted abi Γ (storePair ptr len base offset) Γ k k :=
  (TypedStep.emitted_nil (fun _ => .store offset hp hb) rfl k).append
    (TypedStep.emitted_nil (fun _ => .store (offset + 4) hl hb) rfl k)

/-! ### What is generated for shapes -/

/-- Storing finds the value and the address, and is emitted in order. -/
def StoresTyped (abi : Abi)
    (store : Shape → Local → Local → Nat → PlanM (List Instruction)) : Prop :=
  ∀ Γ s src base offset k, (src, .native s) ∈ Γ → (base, .word .i32) ∈ Γ →
    (store s src base offset).Meets k fun code k' => ∃ Γ', Emitted abi Γ code Γ' k k'

/-- Loading finds the address, is emitted in order and defines the value. -/
def LoadsTyped (abi : Abi)
    (load : Shape → Local → Nat → PlanM (List Instruction × Local)) : Prop :=
  ∀ Γ s base offset k, (base, .word .i32) ∈ Γ →
    (load s base offset).Meets k fun r k' => ∃ Γ', Emitted abi Γ r.1 Γ' k k' ∧
      (r.2, .native s) ∈ Γ'

/-- Freeing finds the address, and is emitted in order. -/
def FreesTyped (abi : Abi)
    (free : Shape → Local → Nat → PlanM (List Instruction)) : Prop :=
  ∀ Γ s base offset k, (base, .word .i32) ∈ Γ →
    (free s base offset).Meets k fun code k' => ∃ Γ', Emitted abi Γ code Γ' k k'

/-- Lowering finds the value, is emitted in order and defines the words of the shape. -/
def LowersTyped (abi : Abi)
    (lower : Shape → Local → PlanM (List Instruction × List Local)) : Prop :=
  ∀ Γ s src k, (src, .native s) ∈ Γ →
    (lower s src).Meets k fun r k' => ∃ Γ' kinds, Emitted abi Γ r.1 Γ' k k' ∧
      s.flatten = .ok kinds ∧ Γ'.Hold r.2 (words kinds)

/-- Lifting takes the words of the shape from some words, is emitted in order and defines the
value. -/
def LiftsTyped (abi : Abi)
    (lift : Shape → List Local → PlanM (List Instruction × Local × List Local)) : Prop :=
  ∀ Γ s ws kinds more k, s.flatten = .ok kinds → Γ.Hold ws (words (kinds ++ more)) →
    (lift s ws).Meets k fun r k' => ∃ Γ', Emitted abi Γ r.1 Γ' k k' ∧
      (r.2.1, .native s) ∈ Γ' ∧ Γ'.Hold r.2.2 (words more)

/-- Freeing takes the words of the shape from some words, and is emitted in order. -/
def FreesWordsTyped (abi : Abi)
    (free : Shape → List Local → PlanM (List Instruction × List Local)) : Prop :=
  ∀ Γ s ws kinds more k, s.flatten = .ok kinds → Γ.Hold ws (words (kinds ++ more)) →
    (free s ws).Meets k fun r k' => ∃ Γ', Emitted abi Γ r.1 Γ' k k' ∧
      Γ'.Hold r.2 (words more)

/-! ### Lists -/

theorem meets_lowerList {store : Shape → Local → Local → Nat → PlanM (List Instruction)}
    (hs : StoresTyped abi store) {element : TypeId} {src : Local}
    (h : (src, .native (.list element)) ∈ Γ) (k : Nat) :
    (lowerList abi store element src).Meets k fun r k' => ∃ Γ', Emitted abi Γ r.1 Γ' k k' ∧
      (r.2.1, .word .i32) ∈ Γ' ∧ (r.2.2, .word .i32) ∈ Γ' := by
  refine meets_bind_liftM fun layout hlayout => meets_bind_fresh <| meets_bind_fresh <|
    meets_bind_fresh <| meets_bind_fresh ?_
  refine (hs ((⟨k + 2⟩, .native (abi.shape element)) :: (⟨k + 3⟩, .word .i32) :: Γ) _ _ _ _ _
    List.mem_cons_self (List.mem_cons_of_mem _ List.mem_cons_self)).bind
    fun body k' ⟨Γ', hbody⟩ => ?_
  refine meets_pure ⟨_, TypedStep.emitted
    (fun f => .listLower ⟨k⟩ ⟨k + 1⟩ h hlayout (hbody.typed f)) ((numbered_pair k).append ?_),
      List.mem_cons_self, List.mem_cons_of_mem _ List.mem_cons_self⟩
  rw [Instruction.bodies, List.flatMap_singleton]
  exact (numbered_pair (k + 2)).append hbody.numbered

theorem meets_liftList {load : Shape → Local → Nat → PlanM (List Instruction × Local)}
    (hl : LoadsTyped abi load) {element : TypeId} {ptr len : Local}
    (hp : (ptr, .word .i32) ∈ Γ) (hn : (len, .word .i32) ∈ Γ) (k : Nat) :
    (liftList abi load element ptr len).Meets k fun r k' => ∃ Γ', Emitted abi Γ r.1 Γ' k k' ∧
      (r.2, .native (.list element)) ∈ Γ' := by
  refine meets_bind_liftM fun layout hlayout => meets_bind_fresh ?_
  refine (hl ((⟨k⟩, .word .i32) :: Γ) _ _ _ _ List.mem_cons_self).bind
    fun ⟨body, item⟩ k' ⟨Γ', hbody, hitem⟩ => ?_
  refine meets_bind_fresh (meets_pure ⟨_, TypedStep.emitted
    (fun f => .listLift ⟨k'⟩ hp hn hlayout (hbody.typed f) hitem) ?_, List.mem_cons_self⟩)
  rw [Instruction.bodies, List.flatMap_singleton]
  exact (((numbered_singleton k).append hbody.numbered).append (numbered_singleton k')).perm
    List.perm_append_comm

theorem meets_freeList {free : Shape → Local → Nat → PlanM (List Instruction)}
    (hf : FreesTyped abi free) {element : TypeId} {ptr len : Local}
    (hp : (ptr, .word .i32) ∈ Γ) (hn : (len, .word .i32) ∈ Γ) (k : Nat) :
    (freeList abi free element ptr len).Meets k fun code k' => Emitted abi Γ code Γ k k' := by
  refine meets_bind_liftM fun layout hlayout => meets_bind_fresh ?_
  refine (hf ((⟨k⟩, .word .i32) :: Γ) _ _ _ _ List.mem_cons_self).bind
    fun body k' ⟨Γ', hbody⟩ => meets_pure ?_
  refine TypedStep.emitted (fun f => .freeList hp hn hlayout (hbody.typed f)) ?_
  rw [Instruction.bodies, List.flatMap_singleton]
  exact (numbered_singleton k).append hbody.numbered

/-! ### Values in memory -/

theorem meets_storeArm {store : Shape → Local → Local → Nat → PlanM (List Instruction)}
    (hs : StoresTyped abi store) {layout : SumLayout} {base : Local}
    (hb : (base, .word .i32) ∈ Γ) (offset : Nat) (case : String × Option Shape) (index k : Nat) :
    (storeArm store layout base offset case index).Meets k fun arm k' =>
      EmittedArms abi Γ [arm] [⟨index, case.1, case.2, []⟩] k k' := by
  have hhead (Γ : Contents) (hb : (base, .word .i32) ∈ Γ) (k : Nat) :
      Emitted abi Γ [.const .i32 index ⟨k⟩,
        .store (discriminantWidth layout.discriminantSize) ⟨k⟩ base offset]
        ((⟨k⟩, .word .i32) :: Γ) k (k + 1) := by
    refine (TypedStep.emitted_next (fun _ => .const .i32 index ⟨k⟩) rfl).append
      (TypedStep.emitted_nil (fun _ => .store offset ?_ (List.mem_cons_of_mem _ hb)) rfl (k + 1))
    rw [core_discriminantWidth]
    exact List.mem_cons_self
  obtain ⟨label, payload⟩ := case
  refine meets_bind_freshFor (fun hnone => ?_) fun shape hsome => ?_
  · cases hnone
    exact meets_bind_fresh <| meets_pure <|
      (hhead Γ hb k).arm ⟨index, label, none, []⟩ none [] rfl (numbered_nil (Nat.le_refl k)) .nil
  · cases hsome
    have hb' : (base, .word .i32) ∈ (⟨k⟩, Content.native shape) :: Γ := List.mem_cons_of_mem _ hb
    refine meets_bind_fresh ((hs ((⟨k + 1⟩, .word .i32) :: (⟨k⟩, .native shape) :: Γ) shape ⟨k⟩
      base _ _ (List.mem_cons_of_mem _ List.mem_cons_self) (List.mem_cons_of_mem _ hb')).bind
        fun code k' ⟨Γ', hcode⟩ => meets_pure ?_)
    exact ((hhead _ hb' (k + 1)).append hcode).arm ⟨index, label, some shape, []⟩ (some ⟨k⟩) [] rfl
      (numbered_singleton k) .nil

variable (abi) in
theorem storesTyped_store (d : Nat) : StoresTyped abi (store abi d) := by
  -- On the depth that is left, as generating is defined by it: the shapes that this one is made of
  -- are stored in whatever contents come before them.
  induction d with
  | zero => exact fun _ _ _ _ _ _ _ _ => meets_throw _
  | succ d ih =>
    intro Γ s src base offset k hs hb
    cases s with
    | leaf l =>
      have hlower : Emitted abi Γ [.lower l.wordKind src ⟨k⟩] _ k (k + 1) :=
        TypedStep.emitted_next (fun _ => .lower ⟨k⟩ hs) rfl
      have hword : (⟨k⟩, Content.word l.wordKind.width.core) ∈
          (⟨k⟩, Content.word l.wordKind.core) :: Γ := by
        rw [WordKind.core_width]
        exact List.mem_cons_self
      exact meets_bind_liftM fun _ _ => meets_bind_fresh <| meets_pure ⟨_, hlower.append
        (TypedStep.emitted_nil (fun _ => .store offset hword (hlower.subset hb)) rfl (k + 1))⟩
    | string =>
      have hlower : Emitted abi Γ [.stringLower src ⟨k⟩ ⟨k + 1⟩] _ k (k + 2) :=
        TypedStep.emitted_results (fun _ => .stringLower ⟨k⟩ ⟨k + 1⟩ hs) rfl (numbered_pair k)
      exact meets_bind_fresh <| meets_bind_fresh <| meets_pure ⟨_, hlower.append
        (emitted_storePair offset List.mem_cons_self (List.mem_cons_of_mem _ List.mem_cons_self)
          (hlower.subset hb) (k + 2))⟩
    | list element =>
      refine (meets_lowerList ih hs k).bind fun ⟨code, ptr, len⟩ k' ⟨Γ', hcode, hp, hn⟩ => ?_
      exact meets_pure
        ⟨_, hcode.append (emitted_storePair offset hp hn (hcode.subset hb) k')⟩
    | product kind fields =>
      refine meets_bind_liftM fun offsets _ => (meets_freshList _ k).bind
        fun locals k₁ ⟨hl, hn⟩ => ?_
      have hparts : Emitted abi Γ [.destructure kind.title src locals] _ k k₁ :=
        TypedStep.emitted_results (fun _ => .destructure hs hl) rfl hn
      have hhold := Contents.hold_zip (hl.trans (length_parts fields).symm) Γ
      refine (meets_mapM_code (fun x hx Γ' k hsub => ?_) k₁).bind fun code k' ⟨Γ', hcode⟩ =>
        meets_pure ⟨Γ', hparts.append hcode⟩
      exact ih Γ' _ _ _ _ k (hsub (hhold.of_mem_zip_swap (List.of_mem_zip hx).1))
        (hsub (hparts.subset hb))
    | sum kind cases =>
      rw [store_sum]
      refine meets_bind_liftM fun layout _ => ?_
      have harms : (cases.zipIdx.mapM fun entry =>
          storeArm (store abi d) layout base offset entry.1 entry.2).Meets k fun arms k' =>
            EmittedArms abi Γ arms (armTypes id (fun _ => []) cases) k k' :=
        meets_mapM_arms (fun entry _ k => meets_storeArm ih hb offset entry.1 entry.2 k) k
      exact harms.bind fun arms k' harms => meets_pure
        ⟨_, TypedStep.emitted (fun f => .matchCase hs (harms.typed f)) harms.numbered⟩
    | unsupported kind title => exact meets_throw _
    | unresolved cause => exact meets_throw _

theorem meets_loadArm {load : Shape → Local → Nat → PlanM (List Instruction × Local)}
    (hl : LoadsTyped abi load) {layout : SumLayout} {base : Local}
    (hb : (base, .word .i32) ∈ Γ) (offset : Nat) (case : String × Option Shape) (index k : Nat) :
    (loadArm load layout base offset case index).Meets k fun arm k' =>
      EmittedArms abi Γ [arm] [⟨index, case.1, none, natives case.2.toList⟩] k k' := by
  obtain ⟨label, _ | shape⟩ := case
  · exact meets_pure ((emitted_nil Γ k).arm ⟨index, label, none, []⟩ none [] rfl
      (numbered_nil (Nat.le_refl k)) .nil)
  · refine (hl Γ shape base _ k hb).bind fun ⟨body, part⟩ k' ⟨Γ', hbody, hpart⟩ => meets_pure ?_
    exact hbody.arm ⟨index, label, none, [.native shape]⟩ none [part] rfl
      (numbered_nil (Nat.le_refl k)) (Contents.hold_singleton hpart)

variable (abi) in
theorem loadsTyped_load (d : Nat) : LoadsTyped abi (load abi d) := by
  induction d with
  | zero => exact fun _ _ _ _ _ _ => meets_throw _
  | succ d ih =>
    intro Γ s base offset k hb
    cases s with
    | leaf l =>
      refine meets_bind_liftM fun _ _ => (meets_loadWord abi _ offset hb k).bind
        fun ⟨code, w⟩ k₁ ⟨Γ₁, hcode, hword⟩ => ?_
      rw [WordKind.core_width] at hword
      exact meets_bind_fresh <| meets_pure ⟨_, hcode.append
        (TypedStep.emitted_next (fun _ => .lift ⟨k₁⟩ hword) rfl), List.mem_cons_self⟩
    | string =>
      refine (meets_loadPair abi offset hb k).bind
        fun ⟨code, ptr, len⟩ k₁ ⟨Γ₁, hcode, hp, hn⟩ => ?_
      exact meets_bind_fresh <| meets_pure ⟨_, hcode.append
        (TypedStep.emitted_next (fun _ => .stringLift ⟨k₁⟩ hp hn) rfl), List.mem_cons_self⟩
    | list element =>
      refine (meets_loadPair abi offset hb k).bind
        fun ⟨code, ptr, len⟩ k₁ ⟨Γ₁, hcode, hp, hn⟩ => ?_
      exact (meets_liftList ih hp hn k₁).bind fun ⟨more, dst⟩ k' ⟨Γ', hmore, hdst⟩ =>
        meets_pure ⟨Γ', hcode.append hmore, hdst⟩
    | product kind fields =>
      refine meets_bind_liftM fun offsets hoffsets => ?_
      have hparts (x : (String × Shape) × Nat) (_ : x ∈ fields.zip offsets) (Γ' : Contents)
          (k : Nat) (hs : Γ ⊆ Γ') := ih Γ' x.1.2 base (offset + x.2) k (hs hb)
      refine (meets_mapM_values hparts k).bind fun rs k₁ ⟨Γ₁, hcode, hhold⟩ => ?_
      rw [map_zip_fst (Shape.length_fieldOffsets hoffsets) fun field => native field.2] at hhold
      exact meets_bind_fresh <| meets_pure ⟨_, hcode.append
        (TypedStep.emitted_next (fun _ => .construct ⟨k₁⟩ hhold) rfl), List.mem_cons_self⟩
    | sum kind cases =>
      rw [load_sum]
      refine meets_bind_liftM fun layout _ => (meets_loadWord abi _ offset hb k).bind
        fun ⟨code, discriminant⟩ k₁ ⟨Γ₁, hcode, hdisc⟩ => ?_
      rw [core_discriminantWidth] at hdisc
      have harms : (cases.zipIdx.mapM fun entry =>
          loadArm (load abi d) layout base offset entry.1 entry.2).Meets k₁ fun arms k' =>
            EmittedArms abi Γ₁ arms
              (armTypes (fun _ => none) (fun payload => natives payload.toList) cases) k₁ k' :=
        meets_mapM_arms (fun entry _ k =>
          meets_loadArm ih (hcode.subset hb) offset entry.1 entry.2 k) k₁
      refine harms.bind fun arms k' harms => meets_bind_fresh (meets_pure ?_)
      have hlift : Emitted abi Γ₁ [.variantLift kind.title discriminant arms ⟨k'⟩] _ k₁ (k' + 1) :=
        TypedStep.emitted (fun f => .variantLift ⟨k'⟩ hdisc (harms.typed f))
          ((harms.numbered.append (numbered_singleton k')).perm List.perm_append_comm)
      exact ⟨_, hcode.append hlift, List.mem_cons_self⟩
    | unsupported kind title => exact meets_throw _
    | unresolved cause => exact meets_throw _

theorem meets_freeStoredArm {free : Shape → Local → Nat → PlanM (List Instruction)}
    (hf : FreesTyped abi free) {layout : SumLayout} {base : Local}
    (hb : (base, .word .i32) ∈ Γ) (offset : Nat) (case : String × Option Shape) (index k : Nat) :
    (freeStoredArm free layout base offset case index).Meets k fun arm? k' =>
      ∃ types : List ArmType, types.Sublist [⟨index, case.1, none, []⟩] ∧
        EmittedArms abi Γ arm?.toList types k k' := by
  have hnone : ∃ types : List ArmType, types.Sublist [⟨index, case.1, none, []⟩] ∧
      EmittedArms abi Γ (none : Option Arm).toList types k k :=
    ⟨[], List.nil_sublist _, emittedArms_nil Γ k⟩
  obtain ⟨label, _ | shape⟩ := case
  · exact meets_pure hnone
  · rw [freeStoredArm]
    dsimp only
    split
    · exact meets_pure hnone
    · refine (hf Γ shape base _ k hb).bind fun body k' ⟨Γ', hbody⟩ => meets_pure ?_
      exact ⟨_, List.Sublist.refl _, hbody.arm ⟨index, label, none, []⟩ none [] rfl
        (numbered_nil (Nat.le_refl k)) .nil⟩

variable (abi) in
theorem freesTyped_freeStored (d : Nat) : FreesTyped abi (freeStored abi d) := by
  induction d with
  | zero => exact fun _ _ _ _ _ _ => meets_throw _
  | succ d ih =>
    intro Γ s base offset k hb
    cases s with
    | leaf l => exact meets_pure ⟨Γ, emitted_nil Γ k⟩
    | string =>
      refine (meets_loadPair abi offset hb k).bind
        fun ⟨code, ptr, len⟩ k₁ ⟨Γ₁, hcode, hp, hn⟩ => meets_pure ?_
      exact ⟨_, hcode.append (TypedStep.emitted_nil (fun _ => .freeString hp hn) rfl k₁)⟩
    | list element =>
      refine (meets_loadPair abi offset hb k).bind
        fun ⟨code, ptr, len⟩ k₁ ⟨Γ₁, hcode, hp, hn⟩ => ?_
      exact (meets_freeList ih hp hn k₁).bind fun more k' hmore =>
        meets_pure ⟨_, hcode.append hmore⟩
    | product kind fields =>
      cases howns : Shape.fieldsOwnMemory fields with
      | false =>
        rw [freeStored_product_nothing d kind howns]
        exact meets_pure ⟨Γ, emitted_nil Γ k⟩
      | true =>
        rw [freeStored_product d kind howns]
        refine meets_bind_liftM fun offsets _ => ?_
        have hparts (x : (String × Shape) × Nat) (_ : x ∈ fields.zip offsets) (Γ' : Contents)
            (k : Nat) (hs : Γ ⊆ Γ') := ih Γ' x.1.2 base (offset + x.2) k (hs hb)
        exact (meets_mapM_code hparts k).bind fun codes k' hcodes => meets_pure hcodes
    | sum kind cases =>
      cases howns : Shape.casesOwnMemory cases with
      | false =>
        rw [freeStored_sum_nothing d kind howns]
        exact meets_pure ⟨Γ, emitted_nil Γ k⟩
      | true =>
        rw [freeStored_sum d howns]
        refine meets_bind_liftM fun layout _ => (meets_loadWord abi _ offset hb k).bind
          fun ⟨code, discriminant⟩ k₁ ⟨Γ₁, hcode, hdisc⟩ => ?_
        rw [core_discriminantWidth] at hdisc
        -- A case that owns nothing has no arm, so the arms are those of some of the cases only.
        have harms : (cases.zipIdx.filterMapM fun entry =>
            freeStoredArm (freeStored abi d) layout base offset entry.1 entry.2).Meets k₁
              fun arms k' => ∃ types : List ArmType,
                types.Sublist (armTypes (fun _ => none) (fun _ => []) cases) ∧
                  EmittedArms abi Γ₁ arms types k₁ k' :=
          meets_filterMapM_arms (fun entry _ k =>
            meets_freeStoredArm ih (hcode.subset hb) offset entry.1 entry.2 k) k₁
        refine harms.bind fun arms k' ⟨types, hsub, harms⟩ => meets_pure ?_
        exact ⟨_, hcode.append
          (TypedStep.emitted (fun f => .switch hdisc hsub (harms.typed f)) harms.numbered)⟩
    | unsupported kind title => exact meets_throw _
    | unresolved cause => exact meets_throw _

/-! ### Values in words -/

theorem meets_lowerArm {lower : Shape → Local → PlanM (List Instruction × List Local)}
    (hl : LowersTyped abi lower) (Γ : Contents) (slots : List CoreType)
    (case : String × Option Shape) (index k : Nat) :
    (lowerArm lower slots case index).Meets k fun arm k' =>
      EmittedArms abi Γ [arm] [⟨index, case.1, case.2, words (.i32 :: slots)⟩] k k' := by
  have hhead (Γ : Contents) (k : Nat) :
      Emitted abi Γ [.const .i32 index ⟨k⟩] ((⟨k⟩, .word .i32) :: Γ) k (k + 1) :=
    TypedStep.emitted_next (fun _ => .const .i32 index ⟨k⟩) rfl
  obtain ⟨label, payload⟩ := case
  refine meets_bind_freshFor (fun hnone => meets_bind_fresh ?_) fun shape hsome =>
    meets_bind_fresh ?_
  · cases hnone
    have hfill : (fillSlots slots []).Meets (k + 1) fun r k' => ∃ Γ',
        Emitted abi ((⟨k⟩, .word .i32) :: Γ) r.1 Γ' (k + 1) k' ∧ Γ'.Hold r.2 (words slots) :=
      meets_fillSlots abi (List.forall_mem_nil _) (k + 1)
    refine hfill.bind fun ⟨fill, filled⟩ k' ⟨Γ', hfill, hold⟩ => meets_pure ?_
    exact ((hhead Γ k).append hfill).arm ⟨index, label, none, words (.i32 :: slots)⟩ none
      (⟨k⟩ :: filled) rfl (numbered_nil (Nat.le_refl k))
      (.cons (hfill.subset List.mem_cons_self) hold)
  · cases hsome
    have hlower := hl ((⟨k + 1⟩, .word .i32) :: (⟨k⟩, .native shape) :: Γ) shape ⟨k⟩ (k + 2)
      (List.mem_cons_of_mem _ List.mem_cons_self)
    have hcase : (lowerCase lower (some shape) (some ⟨k⟩)).Meets (k + 2) fun r k' => ∃ Γ',
        Emitted abi ((⟨k + 1⟩, .word .i32) :: (⟨k⟩, .native shape) :: Γ) r.1 Γ' (k + 2) k' ∧
          ∀ w ∈ r.2, (w.1, .word w.2) ∈ Γ' := by
      refine hlower.bind fun ⟨code, ws⟩ k' ⟨Γ', kinds, hcode, hk, hold⟩ =>
        meets_bind_liftM fun kinds' hk' => meets_pure ⟨Γ', hcode, ?_⟩
      cases hk.symm.trans hk'
      exact fun w hw => hold.of_mem_zip hw
    refine hcase.bind fun ⟨code, ws⟩ k₁ ⟨Γ₁, hcode, hws⟩ => ?_
    refine (meets_fillSlots abi hws k₁).bind
      fun ⟨fill, filled⟩ k' ⟨Γ', hfill, hold⟩ => meets_pure ?_
    have hbody := ((hhead ((⟨k⟩, .native shape) :: Γ) (k + 1)).append hcode).append hfill
    refine hbody.arm ⟨index, label, some shape, words (.i32 :: slots)⟩ (some ⟨k⟩)
      (⟨k + 1⟩ :: filled) rfl (numbered_singleton k) (.cons ?_ hold)
    exact hfill.subset (hcode.subset List.mem_cons_self)

variable (abi) in
theorem lowersTyped_lower (d : Nat) : LowersTyped abi (lower abi d) := by
  induction d with
  | zero => exact fun _ _ _ _ _ => meets_throw _
  | succ d ih =>
    intro Γ s src k hs
    cases s with
    | leaf l =>
      have hlower : Emitted abi Γ [.lower l.wordKind src ⟨k⟩] _ k (k + 1) :=
        TypedStep.emitted_next (fun _ => .lower ⟨k⟩ hs) rfl
      refine meets_bind_liftM fun _ hcheck => meets_bind_fresh <| meets_pure
        ⟨_, [l.wordKind.core], hlower, ?_, Contents.hold_singleton List.mem_cons_self⟩
      rw [Shape.flatten, hcheck, Leaf.core_wordKind]
      rfl
    | string =>
      have hlower : Emitted abi Γ [.stringLower src ⟨k⟩ ⟨k + 1⟩] _ k (k + 2) :=
        TypedStep.emitted_results (fun _ => .stringLower ⟨k⟩ ⟨k + 1⟩ hs) rfl (numbered_pair k)
      exact meets_bind_fresh <| meets_bind_fresh <| meets_pure ⟨_, [.i32, .i32], hlower, rfl,
        Contents.hold_pair List.mem_cons_self (List.mem_cons_of_mem _ List.mem_cons_self)⟩
    | list element =>
      exact (meets_lowerList (storesTyped_store abi d) hs k).bind
        fun ⟨code, ptr, len⟩ k' ⟨Γ', hcode, hp, hn⟩ =>
          meets_pure ⟨Γ', [.i32, .i32], hcode, rfl, Contents.hold_pair hp hn⟩
    | product kind fields =>
      refine (meets_freshList _ k).bind fun locals k₁ ⟨hl, hn⟩ => ?_
      have hparts : Emitted abi Γ [.destructure kind.title src locals] _ k k₁ :=
        TypedStep.emitted_results (fun _ => .destructure hs hl) rfl hn
      have hhold := Contents.hold_zip (hl.trans (length_parts fields).symm) Γ
      have hfields (x : (String × Shape) × Local) (hx : x ∈ fields.zip locals) (Γ' : Contents)
          (k : Nat) (hsub : locals.zip (parts fields) ++ Γ ⊆ Γ') :=
        ih Γ' x.1.2 x.2 k (hsub (hhold.of_mem_zip_swap hx))
      refine (meets_mapM_words (c := Prod.fst) hfields k₁).bind
        fun rs k' ⟨Γ', kinds, hcode, hk, hw⟩ => meets_pure ⟨Γ', kinds, hparts.append hcode, ?_, hw⟩
      rwa [List.map_fst_zip (Nat.le_of_eq hl.symm)] at hk
    | sum kind cases =>
      rw [lower_sum]
      refine meets_bind_liftM fun slots hslots => (meets_freshList _ k).bind
        fun results k₁ ⟨hl, hn⟩ => ?_
      have harms : (cases.zipIdx.mapM fun entry =>
          lowerArm (lower abi d) slots entry.1 entry.2).Meets k₁ fun arms k' => EmittedArms abi Γ arms
            (armTypes id (fun _ => words (.i32 :: slots)) cases) k₁ k' :=
        meets_mapM_arms (fun entry _ k => meets_lowerArm ih Γ slots entry.1 entry.2 k) k₁
      refine harms.bind fun arms k' harms => meets_pure ⟨_, .i32 :: slots, TypedStep.emitted
        (fun f => .variantLower hs hslots hl (harms.typed f)) (hn.append harms.numbered), ?_, ?_⟩
      · rw [Shape.flatten, hslots]
        rfl
      · exact Contents.hold_zip (hl.trans (length_words (.i32 :: slots)).symm) Γ
    | unsupported kind title => exact meets_throw _
    | unresolved cause => exact meets_throw _

theorem meets_liftFields
    {lift : Shape → List Local → PlanM (List Instruction × Local × List Local)}
    (hl : LiftsTyped abi lift) {fields : List (String × Shape)} {ws : List Local}
    {kinds more : List CoreType} (hk : Shape.flattenFields fields = .ok kinds)
    (hw : Γ.Hold ws (words (kinds ++ more))) (k : Nat) :
    (liftFields lift fields ws).Meets k fun r k' => ∃ Γ', Emitted abi Γ r.1 Γ' k k' ∧
      Γ'.Hold r.2.1 (parts fields) ∧ Γ'.Hold r.2.2 (words more) := by
  induction fields generalizing ws kinds Γ k with
  | nil =>
    cases hk
    exact meets_pure ⟨Γ, emitted_nil Γ k, .nil, hw⟩
  | cons field fields ih =>
    obtain ⟨own, hown, hk⟩ := Except.bind_eq_ok.1 hk
    obtain ⟨rest, hrest, hk⟩ := Except.bind_eq_ok.1 hk
    cases hk
    rw [List.append_assoc] at hw
    refine (hl Γ field.2 ws own (rest ++ more) k hown hw).bind
      fun ⟨first, part, ws⟩ k₁ ⟨Γ₁, hfirst, hpart, hws⟩ => ?_
    refine (ih hrest hws k₁).bind fun ⟨code, locals, ws⟩ k' ⟨Γ', hcode, hold, hws⟩ =>
      meets_pure ⟨Γ', hfirst.append hcode, .cons (hcode.subset hpart) hold, hws⟩

theorem meets_liftArm
    {lift : Shape → List Local → PlanM (List Instruction × Local × List Local)}
    (hl : LiftsTyped abi lift) {cases : List (String × Option Shape)} {slots : List CoreType}
    {own : List Local} (hslots : Shape.flattenCases cases = .ok slots)
    (hw : Γ.Hold own (words slots)) {case : String × Option Shape} (hm : case ∈ cases)
    (index k : Nat) :
    (liftArm lift slots own case index).Meets k fun arm k' =>
      EmittedArms abi Γ [arm] [⟨index, case.1, none, natives case.2.toList⟩] k k' := by
  obtain ⟨label, _ | shape⟩ := case
  · exact meets_pure ((emitted_nil Γ k).arm ⟨index, label, none, []⟩ none [] rfl
      (numbered_nil (Nat.le_refl k)) .nil)
  · obtain ⟨kinds, hk, hj⟩ := Shape.fits_slots hslots hm
    refine meets_bind_liftM fun kinds' hk' => ?_
    cases hk.symm.trans hk'
    refine (meets_drainSlots abi hj hw k).bind
      fun ⟨casts, payload⟩ k₁ ⟨Γ₁, hcasts, hpayload⟩ => ?_
    rw [← List.append_nil kinds] at hpayload
    refine (hl Γ₁ shape payload kinds [] k₁ hk hpayload).bind
      fun ⟨code, part, _⟩ k' ⟨Γ', hcode, hpart, _⟩ => meets_pure ?_
    exact (hcasts.append hcode).arm ⟨index, label, none, [.native shape]⟩ none [part] rfl
      (numbered_nil (Nat.le_refl k)) (Contents.hold_singleton hpart)

variable (abi) in
theorem liftsTyped_lift (d : Nat) : LiftsTyped abi (lift abi d) := by
  induction d with
  | zero => exact fun _ _ _ _ _ _ _ _ => meets_throw _
  | succ d ih =>
    intro Γ s ws kinds more k hk hw
    cases s with
    | leaf l =>
      obtain ⟨_, -, rfl⟩ := Except.map_eq_ok.1 hk
      refine meets_bind_liftM fun _ _ => meets_bind_next fun w rest hws => ?_
      subst hws
      obtain ⟨hword, hrest⟩ := List.forall₂_cons.1 hw
      rw [← Leaf.core_wordKind] at hword
      have hlift : Emitted abi Γ [.lift l.wordKind w ⟨k⟩] _ k (k + 1) :=
        TypedStep.emitted_next (fun _ => .lift ⟨k⟩ hword) rfl
      exact meets_bind_fresh <| meets_pure
        ⟨_, hlift, List.mem_cons_self, Contents.Hold.mono hrest hlift.subset⟩
    | string =>
      cases hk
      refine meets_bind_next fun ptr rest hws => meets_bind_next fun len rest' hws' => ?_
      subst hws hws'
      obtain ⟨hp, hw⟩ := List.forall₂_cons.1 hw
      obtain ⟨hn, hrest⟩ := List.forall₂_cons.1 hw
      have hlift : Emitted abi Γ [.stringLift ptr len ⟨k⟩] _ k (k + 1) :=
        TypedStep.emitted_next (fun _ => .stringLift ⟨k⟩ hp hn) rfl
      exact meets_bind_fresh <| meets_pure
        ⟨_, hlift, List.mem_cons_self, Contents.Hold.mono hrest hlift.subset⟩
    | list element =>
      cases hk
      refine meets_bind_next fun ptr rest hws => meets_bind_next fun len rest' hws' => ?_
      subst hws hws'
      obtain ⟨hp, hw⟩ := List.forall₂_cons.1 hw
      obtain ⟨hn, hrest⟩ := List.forall₂_cons.1 hw
      exact (meets_liftList (loadsTyped_load abi d) hp hn k).bind
        fun ⟨code, dst⟩ k' ⟨Γ', hcode, hdst⟩ =>
          meets_pure ⟨Γ', hcode, hdst, Contents.Hold.mono hrest hcode.subset⟩
    | product kind fields =>
      refine (meets_liftFields ih hk hw k).bind
        fun ⟨code, locals, rest⟩ k₁ ⟨Γ₁, hcode, hold, hrest⟩ => ?_
      have hconstruct : Emitted abi Γ₁ [.construct kind.title locals ⟨k₁⟩] _ k₁ (k₁ + 1) :=
        TypedStep.emitted_next (fun _ => .construct ⟨k₁⟩ hold) rfl
      exact meets_bind_fresh <| meets_pure ⟨_, hcode.append hconstruct, List.mem_cons_self,
        hrest.mono hconstruct.subset⟩
    | sum kind cases =>
      obtain ⟨slots, hslots, rfl⟩ := Except.map_eq_ok.1 hk
      rw [lift_sum]
      refine meets_bind_liftM fun slots' hslots' => meets_bind_next fun discriminant rest hws => ?_
      cases hslots.symm.trans hslots'
      subst hws
      obtain ⟨hdisc, hw⟩ := List.forall₂_cons.1 hw
      obtain ⟨hown, hrest⟩ := Contents.Hold.take_drop hw
      refine meets_bind_take fun _ => ?_
      have harms : (cases.zipIdx.mapM fun entry =>
          liftArm (lift abi d) slots (rest.take slots.length) entry.1 entry.2).Meets k fun arms k' =>
            EmittedArms abi Γ arms
              (armTypes (fun _ => none) (fun payload => natives payload.toList) cases) k k' :=
        meets_mapM_arms (fun entry hm k =>
          meets_liftArm ih hslots hown (List.fst_mem_of_mem_zipIdx hm) entry.2 k) k
      refine harms.bind fun arms k' harms => meets_bind_fresh (meets_pure ?_)
      have hlift : Emitted abi Γ [.variantLift kind.title discriminant arms ⟨k'⟩] _ k (k' + 1) :=
        TypedStep.emitted (fun f => .variantLift ⟨k'⟩ hdisc (harms.typed f))
          ((harms.numbered.append (numbered_singleton k')).perm List.perm_append_comm)
      exact ⟨_, hlift, List.mem_cons_self, hrest.mono hlift.subset⟩
    | unsupported kind title => cases hk
    | unresolved cause => cases hk

theorem meets_freeFieldWords {free : Shape → List Local → PlanM (List Instruction × List Local)}
    (hf : FreesWordsTyped abi free) {fields : List (String × Shape)} {ws : List Local}
    {kinds more : List CoreType} (hk : Shape.flattenFields fields = .ok kinds)
    (hw : Γ.Hold ws (words (kinds ++ more))) (k : Nat) :
    (freeFieldWords free fields ws).Meets k fun r k' => ∃ Γ', Emitted abi Γ r.1 Γ' k k' ∧
      Γ'.Hold r.2 (words more) := by
  induction fields generalizing ws kinds Γ k with
  | nil =>
    cases hk
    exact meets_pure ⟨Γ, emitted_nil Γ k, hw⟩
  | cons field fields ih =>
    obtain ⟨own, hown, hk⟩ := Except.bind_eq_ok.1 hk
    obtain ⟨rest, hrest, hk⟩ := Except.bind_eq_ok.1 hk
    cases hk
    rw [List.append_assoc] at hw
    refine (hf Γ field.2 ws own (rest ++ more) k hown hw).bind
      fun ⟨first, ws⟩ k₁ ⟨Γ₁, hfirst, hws⟩ => ?_
    exact (ih hrest hws k₁).bind fun ⟨code, ws⟩ k' ⟨Γ', hcode, hws⟩ =>
      meets_pure ⟨Γ', hfirst.append hcode, hws⟩

theorem meets_freeFlatArm {free : Shape → List Local → PlanM (List Instruction × List Local)}
    (hf : FreesWordsTyped abi free) {cases : List (String × Option Shape)}
    {slots : List CoreType} {own : List Local} (hslots : Shape.flattenCases cases = .ok slots)
    (hw : Γ.Hold own (words slots)) {case : String × Option Shape} (hm : case ∈ cases)
    (index k : Nat) :
    (freeFlatArm free slots own case index).Meets k fun arm? k' =>
      ∃ types : List ArmType, types.Sublist [⟨index, case.1, none, []⟩] ∧
        EmittedArms abi Γ arm?.toList types k k' := by
  have hnone : ∃ types : List ArmType, types.Sublist [⟨index, case.1, none, []⟩] ∧
      EmittedArms abi Γ (none : Option Arm).toList types k k :=
    ⟨[], List.nil_sublist _, emittedArms_nil Γ k⟩
  obtain ⟨label, _ | shape⟩ := case
  · exact meets_pure hnone
  · rw [freeFlatArm]
    dsimp only
    split
    · exact meets_pure hnone
    · obtain ⟨kinds, hk, hj⟩ := Shape.fits_slots hslots hm
      refine meets_bind_liftM fun kinds' hk' => ?_
      cases hk.symm.trans hk'
      refine (meets_drainSlots abi hj hw k).bind
        fun ⟨casts, payload⟩ k₁ ⟨Γ₁, hcasts, hpayload⟩ => ?_
      rw [← List.append_nil kinds] at hpayload
      refine (hf Γ₁ shape payload kinds [] k₁ hk hpayload).bind
        fun ⟨code, _⟩ k' ⟨Γ', hcode, _⟩ => meets_pure ⟨_, List.Sublist.refl _, ?_⟩
      exact (hcasts.append hcode).arm ⟨index, label, none, []⟩ none [] rfl
        (numbered_nil (Nat.le_refl k)) .nil

variable (abi) in
theorem freesWordsTyped_freeFlat (d : Nat) : FreesWordsTyped abi (freeFlat abi d) := by
  induction d with
  | zero => exact fun _ _ _ _ _ _ _ _ => meets_throw _
  | succ d ih =>
    intro Γ s ws kinds more k hk hw
    cases howns : s.ownsMemory with
    | false =>
      -- The words are passed over without an instruction.
      rw [freeFlat_nothing d howns]
      refine meets_bind_liftM fun kinds' hk' => meets_bind_take fun _ => meets_pure ?_
      cases hk.symm.trans hk'
      exact ⟨Γ, emitted_nil Γ k, hw.take_drop.2⟩
    | true =>
      cases s with
      | leaf l => cases howns
      | string =>
        cases hk
        refine meets_bind_next fun ptr rest hws => meets_bind_next fun len rest' hws' => ?_
        subst hws hws'
        obtain ⟨hp, hw⟩ := List.forall₂_cons.1 hw
        obtain ⟨hn, hrest⟩ := List.forall₂_cons.1 hw
        exact meets_pure ⟨Γ, TypedStep.emitted_nil (fun _ => .freeString hp hn) rfl k, hrest⟩
      | list element =>
        cases hk
        refine meets_bind_next fun ptr rest hws => meets_bind_next fun len rest' hws' => ?_
        subst hws hws'
        obtain ⟨hp, hw⟩ := List.forall₂_cons.1 hw
        obtain ⟨hn, hrest⟩ := List.forall₂_cons.1 hw
        exact (meets_freeList (freesTyped_freeStored abi d) hp hn k).bind
          fun code k' hcode => meets_pure ⟨Γ, hcode, hrest⟩
      | product kind fields =>
        rw [freeFlat_product d howns]
        exact meets_freeFieldWords ih hk hw k
      | sum kind cases =>
        obtain ⟨slots, hslots, rfl⟩ := Except.map_eq_ok.1 hk
        rw [freeFlat_sum d howns]
        refine meets_bind_liftM fun slots' hslots' =>
          meets_bind_next fun discriminant rest hws => ?_
        cases hslots.symm.trans hslots'
        subst hws
        obtain ⟨hdisc, hw⟩ := List.forall₂_cons.1 hw
        obtain ⟨hown, hrest⟩ := Contents.Hold.take_drop hw
        refine meets_bind_take fun _ => ?_
        have harms : (cases.zipIdx.filterMapM fun entry =>
            freeFlatArm (freeFlat abi d) slots (rest.take slots.length) entry.1 entry.2).Meets k
              fun arms k' => ∃ types : List ArmType,
                types.Sublist (armTypes (fun _ => none) (fun _ => []) cases) ∧
                  EmittedArms abi Γ arms types k k' :=
          meets_filterMapM_arms (fun entry hm k =>
            meets_freeFlatArm ih hslots hown (List.fst_mem_of_mem_zipIdx hm) entry.2 k) k
        exact harms.bind fun arms k' ⟨types, hsub, harms⟩ => meets_pure
          ⟨Γ, TypedStep.emitted (fun f => .switch hdisc hsub (harms.typed f)) harms.numbered, hrest⟩
      | unsupported kind title => cases hk
      | unresolved cause => cases hk

end Plan

end ComponentAbi
