import ComponentAbi.Proofs.Marshal.Passing
import ComponentAbi.Proofs.Plan.Generation
import ComponentAbi.Proofs.Plan.Parts
import ComponentAbi.Proofs.Plan.Passable

/-!
# Functions that plans are generated for

`PlanM.Ensures` says that a generation succeeds, and what is so of what it gives. Generation
succeeds for every shape that can be passed (`Plan.ensures_store` and those around it), and so there
are plans of every function whose types are passable, in both directions (`Abi.plan_accepts`).

It is not enough that a function has a signature. The search for what a type owns stops at the first
hit, and does not count flags, so that a list may have elements that have no values
(`Abi.signature_hides_element`).
-/

namespace ComponentAbi

namespace PlanM

variable {α β : Type} {P : α → Prop} {Q : β → Prop}

/-- Whatever was handed out before, the generation succeeds, and what it gives is as said. -/
def Ensures (x : PlanM α) (P : α → Prop) : Prop :=
  ∀ k, ∃ a k', x.Gives k a k' ∧ P a

theorem Ensures.mono {P' : α → Prop} {x : PlanM α} (h : x.Ensures P) (hp : ∀ a, P a → P' a) :
    x.Ensures P' := by
  intro k
  obtain ⟨a, k', hg, ha⟩ := h k
  exact ⟨a, k', hg, hp a ha⟩

theorem Ensures.trivial {x : PlanM α} (h : x.Ensures P) : x.Ensures fun _ => True :=
  h.mono fun _ _ => True.intro

theorem ensures_pure {a : α} (h : P a) : (pure a : PlanM α).Ensures P :=
  fun k => ⟨a, k, gives_pure.2 ⟨rfl, rfl⟩, h⟩

theorem Ensures.bind {x : PlanM α} {f : α → PlanM β} (hx : x.Ensures P)
    (hf : ∀ a, P a → (f a).Ensures Q) : (x >>= f).Ensures Q := by
  intro k
  obtain ⟨a, k₁, ha, hp⟩ := hx k
  obtain ⟨b, k', hb, hq⟩ := hf a hp k₁
  exact ⟨b, k', gives_bind.2 ⟨a, k₁, ha, hb⟩, hq⟩

theorem ensures_bind_liftM {x : Except AbiError α} {a : α} {f : α → PlanM β} (h : x = .ok a)
    (hf : (f a).Ensures Q) : ((liftM x : PlanM α) >>= f).Ensures Q := by
  subst h
  intro k
  obtain ⟨b, k', hb, hq⟩ := hf k
  exact ⟨b, k', gives_bind.2 ⟨a, k, gives_liftM.2 ⟨rfl, rfl⟩, hb⟩, hq⟩

theorem ensures_fresh : fresh.Ensures fun _ => True :=
  fun k => ⟨⟨k⟩, k + 1, gives_fresh.2 ⟨rfl, rfl⟩, True.intro⟩

theorem ensures_mapM {xs : List α} {f : α → PlanM β} {R : α → β → Prop}
    (h : ∀ x ∈ xs, (f x).Ensures (R x)) : (xs.mapM f).Ensures (List.Forall₂ R xs) := by
  induction xs with
  | nil => exact ensures_pure .nil
  | cons x xs ih =>
    obtain ⟨hx, hxs⟩ := List.forall_mem_cons.1 h
    rw [List.mapM_cons]
    exact hx.bind fun y hy => (ih hxs).bind fun ys hys => ensures_pure (.cons hy hys)

theorem ensures_filterMapM {xs : List α} {f : α → PlanM (Option β)}
    (h : ∀ x ∈ xs, (f x).Ensures fun _ => True) : (xs.filterMapM f).Ensures fun _ => True := by
  induction xs with
  | nil => exact ensures_pure True.intro
  | cons x xs ih =>
    obtain ⟨hx, hxs⟩ := List.forall_mem_cons.1 h
    rw [List.filterMapM_cons]
    refine hx.bind fun o _ => ?_
    cases o with
    | none => exact ih hxs
    | some y => exact (ih hxs).bind fun _ _ => ensures_pure True.intro

theorem ensures_freshList (n : Nat) : (freshList n).Ensures fun ls => ls.length = n :=
  (ensures_mapM fun _ _ => ensures_fresh).mono fun ls h => by
    rw [← h.length_eq, List.length_range]

theorem ensures_freshFor (payload : Option α) :
    (freshFor payload).Ensures fun l => l.isSome = payload.isSome := by
  cases payload with
  | none => exact ensures_pure rfl
  | some a => exact ensures_fresh.bind fun _ _ => ensures_pure rfl

theorem ensures_next {ls : List Local} (h : 0 < ls.length) :
    (next ls).Ensures fun r => r.2.length + 1 = ls.length := by
  cases ls with
  | nil => cases h
  | cons l rest => exact ensures_pure rfl

theorem ensures_take {ls : List Local} {n : Nat} (h : n ≤ ls.length) :
    (take ls n).Ensures fun r => r.1.length = n ∧ r.2.length + n = ls.length := by
  rw [take, if_neg (Nat.not_lt.2 h)]
  exact ensures_pure ⟨List.length_take_of_le h, by rw [List.length_drop]; omega⟩

end PlanM

namespace Plan

open PlanM

variable {abi : Abi} {d : Nat} {s : Shape}

/-! ### Slots -/

theorem ensures_cast {kind slot : CoreType} (h : kind.join slot = slot) (word : Local)
    (back : Bool) : (cast word kind slot back).Ensures fun _ => True := by
  obtain ⟨there, hthere⟩ := Option.isSome_iff_exists.1 (Bitcast.between_join kind slot)
  rw [h] at hthere
  rw [cast, hthere]
  dsimp only
  generalize (if back = true then there.inverse else there) = c
  split
  · exact ensures_pure True.intro
  · exact ensures_fresh.bind fun _ _ => ensures_pure True.intro

theorem ensures_fillSlots {slots : List CoreType} {words : List (Local × CoreType)}
    (h : joinWords (words.map (·.2)) slots = slots) :
    (fillSlots slots words).Ensures fun r => r.2.length = slots.length := by
  induction slots generalizing words with
  | nil => exact ensures_pure rfl
  | cons slot slots ih =>
    cases words with
    | nil =>
      exact ensures_fresh.bind fun _ _ => (ih rfl).bind fun _ hr =>
        ensures_pure (congrArg Nat.succ hr)
    | cons word words =>
      obtain ⟨hslot, hrest⟩ := List.cons.inj h
      exact (ensures_cast hslot _ _).bind fun _ _ => (ih hrest).bind fun _ hr =>
        ensures_pure (congrArg Nat.succ hr)

theorem ensures_drainSlots {kinds slots : List CoreType} {words : List Local}
    (h : joinWords kinds slots = slots) (hl : words.length = slots.length) :
    (drainSlots kinds words slots).Ensures fun r => r.2.length = kinds.length := by
  induction kinds generalizing words slots with
  | nil => exact ensures_pure rfl
  | cons kind kinds ih =>
    cases slots with
    | nil => cases h
    | cons slot slots =>
      cases words with
      | nil => cases hl
      | cons word words =>
        obtain ⟨hslot, hrest⟩ := List.cons.inj h
        exact (ensures_cast hslot _ _).bind fun _ _ =>
          (ih hrest (Nat.succ.inj hl)).bind fun _ hr => ensures_pure (congrArg Nat.succ hr)

/-! ### Values in memory -/

theorem ensures_loadWord (width : MemoryWidth) (base : Local) (offset : Nat) :
    (loadWord width base offset).Ensures fun _ => True :=
  ensures_fresh.bind fun _ _ => ensures_pure True.intro

theorem ensures_loadPair (base : Local) (offset : Nat) :
    (loadPair base offset).Ensures fun _ => True :=
  ensures_fresh.bind fun _ _ => ensures_fresh.bind fun _ _ => ensures_pure True.intro

theorem ensures_lowerList {store : Shape → Local → Local → Nat → PlanM (List Instruction)}
    {element : TypeId} {layout : Layout} (hl : (abi.shape element).layout = .ok layout)
    (hs : ∀ src base offset, (store (abi.shape element) src base offset).Ensures fun _ => True)
    (src : Local) : (lowerList abi store element src).Ensures fun _ => True :=
  ensures_bind_liftM hl <| ensures_fresh.bind fun _ _ => ensures_fresh.bind fun _ _ =>
    ensures_fresh.bind fun _ _ => ensures_fresh.bind fun _ _ => (hs _ _ _).bind fun _ _ =>
      ensures_pure True.intro

theorem ensures_liftList {load : Shape → Local → Nat → PlanM (List Instruction × Local)}
    {element : TypeId} {layout : Layout} (hl : (abi.shape element).layout = .ok layout)
    (hs : ∀ base offset, (load (abi.shape element) base offset).Ensures fun _ => True)
    (ptr len : Local) : (liftList abi load element ptr len).Ensures fun _ => True :=
  ensures_bind_liftM hl <| ensures_fresh.bind fun _ _ => (hs _ _).bind fun _ _ =>
    ensures_fresh.bind fun _ _ => ensures_pure True.intro

theorem ensures_freeList {free : Shape → Local → Nat → PlanM (List Instruction)}
    {element : TypeId} {layout : Layout} (hl : (abi.shape element).layout = .ok layout)
    (hs : ∀ base offset, (free (abi.shape element) base offset).Ensures fun _ => True)
    (ptr len : Local) : (freeList abi free element ptr len).Ensures fun _ => True :=
  ensures_bind_liftM hl <| ensures_fresh.bind fun _ _ => (hs _ _).bind fun _ _ =>
    ensures_pure True.intro

theorem ensures_store (h : abi.PassableWithin d s) (src base : Local) (offset : Nat) :
    (store abi d s src base offset).Ensures fun _ => True := by
  induction d generalizing s src base offset with
  | zero => exact h.elim
  | succ d ih =>
    cases s with
    | leaf l => exact ensures_bind_liftM h (ensures_fresh.bind fun _ _ => ensures_pure True.intro)
    | string =>
      exact ensures_fresh.bind fun _ _ => ensures_fresh.bind fun _ _ => ensures_pure True.intro
    | list element =>
      have helement : abi.PassableWithin d (abi.shape element) := h
      obtain ⟨layout, hl⟩ := helement.layout
      exact (ensures_lowerList hl (fun _ _ _ => ih helement _ _ _) src).bind fun _ _ =>
        ensures_pure True.intro
    | product kind fields =>
      obtain ⟨offsets, ho⟩ := h.offsets
      refine ensures_bind_liftM ho ((ensures_freshList _).bind fun locals _ => ?_)
      refine (ensures_mapM (R := fun _ _ => True) fun entry hm => ?_).bind fun _ _ =>
        ensures_pure True.intro
      exact ih (h entry.1.1 (List.of_mem_zip (List.of_mem_zip hm).1).1) _ _ _
    | sum kind cases =>
      obtain ⟨layout, hl⟩ := h.placement
      rw [store_sum]
      refine ensures_bind_liftM hl ?_
      refine (ensures_mapM (R := fun _ _ => True) fun entry hm => ?_).bind fun _ _ =>
        ensures_pure True.intro
      obtain ⟨⟨label, case⟩, index⟩ := entry
      refine (ensures_freshFor case).bind fun payload hp => ensures_fresh.bind fun _ _ => ?_
      refine Ensures.bind (P := fun _ => True) ?_ fun _ _ => ensures_pure True.intro
      cases case with
      | none => exact ensures_pure True.intro
      | some shape =>
        obtain ⟨part, rfl⟩ := Option.isSome_iff_exists.1 hp
        exact ih (h label shape (List.fst_mem_of_mem_zipIdx hm)) _ _ _
    | unsupported | unresolved => exact h.elim

theorem ensures_load (h : abi.PassableWithin d s) (base : Local) (offset : Nat) :
    (load abi d s base offset).Ensures fun _ => True := by
  induction d generalizing s base offset with
  | zero => exact h.elim
  | succ d ih =>
    cases s with
    | leaf l =>
      exact ensures_bind_liftM h <| (ensures_loadWord _ _ _).bind fun _ _ =>
        ensures_fresh.bind fun _ _ => ensures_pure True.intro
    | string =>
      exact (ensures_loadPair _ _).bind fun _ _ => ensures_fresh.bind fun _ _ =>
        ensures_pure True.intro
    | list element =>
      have helement : abi.PassableWithin d (abi.shape element) := h
      obtain ⟨layout, hl⟩ := helement.layout
      exact (ensures_loadPair _ _).bind fun _ _ =>
        (ensures_liftList hl (fun _ _ => ih helement _ _) _ _).bind fun _ _ =>
          ensures_pure True.intro
    | product kind fields =>
      obtain ⟨offsets, ho⟩ := h.offsets
      refine ensures_bind_liftM ho ?_
      refine (ensures_mapM (R := fun _ _ => True) fun entry hm => ?_).bind fun _ _ =>
        ensures_fresh.bind fun _ _ => ensures_pure True.intro
      exact ih (h entry.1 (List.of_mem_zip hm).1) _ _
    | sum kind cases =>
      obtain ⟨layout, hl⟩ := h.placement
      refine ensures_bind_liftM hl ((ensures_loadWord _ _ _).bind fun _ _ => ?_)
      refine (ensures_mapM (R := fun _ _ => True) fun entry hm => ?_).bind fun _ _ =>
        ensures_fresh.bind fun _ _ => ensures_pure True.intro
      obtain ⟨⟨label, case⟩, index⟩ := entry
      cases case with
      | none => exact ensures_pure True.intro
      | some shape =>
        have hshape := h label shape (List.fst_mem_of_mem_zipIdx hm)
        exact (ih hshape _ _).bind fun _ _ => ensures_pure True.intro
    | unsupported | unresolved => exact h.elim

theorem ensures_freeStored (h : abi.PassableWithin d s) (base : Local) (offset : Nat) :
    (freeStored abi d s base offset).Ensures fun _ => True := by
  induction d generalizing s base offset with
  | zero => exact h.elim
  | succ d ih =>
    cases s with
    | leaf l => exact ensures_pure True.intro
    | string => exact (ensures_loadPair _ _).bind fun _ _ => ensures_pure True.intro
    | list element =>
      have helement : abi.PassableWithin d (abi.shape element) := h
      obtain ⟨layout, hl⟩ := helement.layout
      exact (ensures_loadPair _ _).bind fun _ _ =>
        (ensures_freeList hl (fun _ _ => ih helement _ _) _ _).bind fun _ _ =>
          ensures_pure True.intro
    | product kind fields =>
      rw [freeStored]
      split
      · exact ensures_pure True.intro
      · obtain ⟨offsets, ho⟩ := h.offsets
        refine ensures_bind_liftM ho ?_
        refine (ensures_mapM (R := fun _ _ => True) fun entry hm => ?_).bind fun _ _ =>
          ensures_pure True.intro
        exact ih (h entry.1 (List.of_mem_zip hm).1) _ _
    | sum kind cases =>
      rw [freeStored]
      split
      · exact ensures_pure True.intro
      · obtain ⟨layout, hl⟩ := h.placement
        refine ensures_bind_liftM hl ((ensures_loadWord _ _ _).bind fun _ _ => ?_)
        refine (ensures_filterMapM fun entry hm => ?_).bind fun _ _ => ensures_pure True.intro
        obtain ⟨⟨label, case⟩, index⟩ := entry
        cases case with
        | none => exact ensures_pure True.intro
        | some shape =>
          have hshape := h label shape (List.fst_mem_of_mem_zipIdx hm)
          dsimp only
          split
          · exact ensures_pure True.intro
          · exact (ih hshape _ _).bind fun _ _ => ensures_pure True.intro
    | unsupported | unresolved => exact h.elim

/-! ### Values in words -/

/-- There are as many words as the shape has. -/
def FillsOut (s : Shape) (words : List Local) : Prop :=
  ∀ kinds, s.flatten = .ok kinds → words.length = kinds.length

theorem length_flatten_of_fillsOut {fields : List (String × Shape)} {locals : List Local}
    {parts : List (List Instruction × List Local)} {kinds : List CoreType}
    (hl : locals.length = fields.length) (hk : Shape.flattenFields fields = .ok kinds)
    (h : List.Forall₂ (fun entry part => FillsOut entry.1.2 part.2) (fields.zip locals) parts) :
    (parts.map (·.2)).flatten.length = kinds.length := by
  induction fields generalizing locals parts kinds with
  | nil =>
    cases hk
    cases h
    rfl
  | cons field fields ih =>
    cases locals with
    | nil => cases hl
    | cons l locals =>
      cases h with
      | cons head tail =>
        rw [Shape.flattenFields] at hk
        obtain ⟨first, hfirst, hk⟩ := Except.bind_eq_ok.1 hk
        obtain ⟨more, hmore, hk⟩ := Except.bind_eq_ok.1 hk
        cases hk
        rw [List.map_cons, List.flatten_cons, List.length_append, List.length_append,
          ih (Nat.succ.inj hl) hmore tail, head first hfirst]

theorem ensures_lower (h : abi.PassableWithin d s) (src : Local) :
    (lower abi d s src).Ensures fun r => FillsOut s r.2 := by
  induction d generalizing s src with
  | zero => exact h.elim
  | succ d ih =>
    cases s with
    | leaf l =>
      refine ensures_bind_liftM h (ensures_fresh.bind fun _ _ => ensures_pure fun kinds hk => ?_)
      rw [Shape.flatten] at hk
      obtain ⟨-, -, rfl⟩ := Except.map_eq_ok.1 hk
      rfl
    | string =>
      refine ensures_fresh.bind fun _ _ => ensures_fresh.bind fun _ _ =>
        ensures_pure fun kinds hk => ?_
      cases hk
      rfl
    | list element =>
      have helement : abi.PassableWithin d (abi.shape element) := h
      obtain ⟨layout, hl⟩ := helement.layout
      refine (ensures_lowerList hl (fun _ _ _ => ensures_store helement _ _ _) src).bind
        fun _ _ => ensures_pure fun kinds hk => ?_
      cases hk
      rfl
    | product kind fields =>
      refine (ensures_freshList _).bind fun locals hlocals => ?_
      refine (ensures_mapM (R := fun entry part => FillsOut entry.1.2 part.2)
        fun entry hm => ih (h entry.1 (List.of_mem_zip hm).1) _).bind fun parts hparts => ?_
      exact ensures_pure fun kinds hk => length_flatten_of_fillsOut hlocals hk hparts
    | sum kind cases =>
      obtain ⟨slots, hslots⟩ := h.slots
      rw [lower_sum]
      refine ensures_bind_liftM hslots ((ensures_freshList _).bind fun results hresults => ?_)
      refine (ensures_mapM (R := fun _ _ => True) fun entry hm => ?_).bind fun _ _ =>
        ensures_pure fun kinds hk => ?_
      · obtain ⟨⟨label, case⟩, index⟩ := entry
        refine (ensures_freshFor case).bind fun payload hp => ensures_fresh.bind fun _ _ => ?_
        refine Ensures.bind (P := fun r => joinWords (r.2.map (·.2)) slots = slots) ?_
          fun _ hr => (ensures_fillSlots hr).bind fun _ _ => ensures_pure True.intro
        cases case with
        | none => exact ensures_pure rfl
        | some shape =>
          obtain ⟨part, rfl⟩ := Option.isSome_iff_exists.1 hp
          have hcase := List.fst_mem_of_mem_zipIdx hm
          obtain ⟨own, hown, hjoin⟩ := Shape.fits_slots hslots hcase
          refine (ih (h label shape hcase) part).bind fun r hr => ?_
          refine ensures_bind_liftM hown (ensures_pure ?_)
          rw [List.map_snd_zip (Nat.le_of_eq (hr own hown).symm)]
          exact hjoin
      · rw [Shape.flatten, hslots] at hk
        cases hk
        rw [hresults, List.length_cons]
    | unsupported | unresolved => exact h.elim

theorem ensures_liftFields {fields : List (String × Shape)} {kinds : List CoreType}
    {words : List Local} {lift : Shape → List Local → PlanM (List Instruction × Local × List Local)}
    (hf : ∀ field ∈ fields, ∀ own words, field.2.flatten = .ok own → own.length ≤ words.length →
      (lift field.2 words).Ensures fun r => r.2.2.length + own.length = words.length)
    (hk : Shape.flattenFields fields = .ok kinds) (hw : kinds.length ≤ words.length) :
    (liftFields lift fields words).Ensures fun r =>
      r.2.2.length + kinds.length = words.length := by
  induction fields generalizing words kinds with
  | nil =>
    cases hk
    exact ensures_pure rfl
  | cons field fields ih =>
    obtain ⟨hfield, hrest⟩ := List.forall_mem_cons.1 hf
    rw [Shape.flattenFields] at hk
    obtain ⟨first, hfirst, hk⟩ := Except.bind_eq_ok.1 hk
    obtain ⟨more, hmore, hk⟩ := Except.bind_eq_ok.1 hk
    cases hk
    rw [List.length_append] at hw ⊢
    refine (hfield first words hfirst (by omega)).bind fun ⟨_, _, rest⟩ hr => ?_
    have hr : rest.length + first.length = words.length := hr
    refine (ih hrest hmore (by omega)).bind ?_
    rintro ⟨_, _, rest'⟩ hr'
    refine ensures_pure ?_
    have hr' : rest'.length + more.length = rest.length := hr'
    change rest'.length + (first.length + more.length) = words.length
    omega

theorem ensures_lift {kinds : List CoreType} {words : List Local} (h : abi.PassableWithin d s)
    (hk : s.flatten = .ok kinds) (hw : kinds.length ≤ words.length) :
    (lift abi d s words).Ensures fun r => r.2.2.length + kinds.length = words.length := by
  induction d generalizing s kinds words with
  | zero => exact h.elim
  | succ d ih =>
    cases s with
    | leaf l =>
      rw [Shape.flatten] at hk
      obtain ⟨-, -, rfl⟩ := Except.map_eq_ok.1 hk
      exact ensures_bind_liftM h <| (ensures_next hw).bind fun _ hr =>
        ensures_fresh.bind fun _ _ => ensures_pure hr
    | string =>
      cases hk
      refine (ensures_next (Nat.lt_of_succ_lt hw)).bind fun r hr => ?_
      have hw : 2 ≤ words.length := hw
      refine (ensures_next (by omega)).bind fun r' hr' => ensures_fresh.bind fun _ _ =>
        ensures_pure ?_
      change r'.2.length + 2 = words.length
      omega
    | list element =>
      cases hk
      have helement : abi.PassableWithin d (abi.shape element) := h
      obtain ⟨layout, hl⟩ := helement.layout
      refine (ensures_next (Nat.lt_of_succ_lt hw)).bind fun r hr => ?_
      have hw : 2 ≤ words.length := hw
      refine (ensures_next (by omega)).bind fun r' hr' =>
        (ensures_liftList hl (fun _ _ => ensures_load helement _ _) _ _).bind fun _ _ =>
          ensures_pure ?_
      change r'.2.length + 2 = words.length
      omega
    | product kind fields =>
      exact (ensures_liftFields (fun field hm own words => ih (h field hm)) hk hw).bind
        fun _ hr => ensures_fresh.bind fun _ _ => ensures_pure hr
    | sum kind cases =>
      obtain ⟨slots, hslots⟩ := h.slots
      rw [Shape.flatten, hslots] at hk
      cases hk
      have hw : slots.length + 1 ≤ words.length := hw
      refine ensures_bind_liftM hslots ((ensures_next (by omega)).bind fun r hr => ?_)
      refine (ensures_take (by omega)).bind fun r' hr' => ?_
      refine (ensures_mapM (R := fun _ _ => True) fun entry hm => ?_).bind fun _ _ =>
        ensures_fresh.bind fun _ _ => ensures_pure ?_
      · obtain ⟨⟨label, case⟩, index⟩ := entry
        cases case with
        | none => exact ensures_pure True.intro
        | some shape =>
          have hcase := List.fst_mem_of_mem_zipIdx hm
          obtain ⟨own, hown, hjoin⟩ := Shape.fits_slots hslots hcase
          refine ensures_bind_liftM hown ((ensures_drainSlots hjoin hr'.1).bind fun r'' hr'' => ?_)
          exact (ih (h label shape hcase) hown (Nat.le_of_eq hr''.symm)).bind fun _ _ =>
            ensures_pure True.intro
      · change r'.2.length + (slots.length + 1) = words.length
        omega
    | unsupported | unresolved => exact h.elim

theorem ensures_freeFieldWords {fields : List (String × Shape)} {kinds : List CoreType}
    {words : List Local} {free : Shape → List Local → PlanM (List Instruction × List Local)}
    (hf : ∀ field ∈ fields, ∀ own words, field.2.flatten = .ok own → own.length ≤ words.length →
      (free field.2 words).Ensures fun r => r.2.length + own.length = words.length)
    (hk : Shape.flattenFields fields = .ok kinds) (hw : kinds.length ≤ words.length) :
    (freeFieldWords free fields words).Ensures fun r =>
      r.2.length + kinds.length = words.length := by
  induction fields generalizing words kinds with
  | nil =>
    cases hk
    exact ensures_pure rfl
  | cons field fields ih =>
    obtain ⟨hfield, hrest⟩ := List.forall_mem_cons.1 hf
    rw [Shape.flattenFields] at hk
    obtain ⟨first, hfirst, hk⟩ := Except.bind_eq_ok.1 hk
    obtain ⟨more, hmore, hk⟩ := Except.bind_eq_ok.1 hk
    cases hk
    rw [List.length_append] at hw ⊢
    refine (hfield first words hfirst (by omega)).bind fun ⟨_, rest⟩ hr => ?_
    have hr : rest.length + first.length = words.length := hr
    refine (ih hrest hmore (by omega)).bind fun ⟨_, rest'⟩ hr' => ensures_pure ?_
    have hr' : rest'.length + more.length = rest.length := hr'
    change rest'.length + (first.length + more.length) = words.length
    omega

theorem ensures_freeFlat {kinds : List CoreType} {words : List Local}
    (h : abi.PassableWithin d s) (hk : s.flatten = .ok kinds) (hw : kinds.length ≤ words.length) :
    (freeFlat abi d s words).Ensures fun r => r.2.length + kinds.length = words.length := by
  induction d generalizing s kinds words with
  | zero => exact h.elim
  | succ d ih =>
    rw [freeFlat.eq_def]
    dsimp only
    split
    · exact ensures_bind_liftM hk ((ensures_take hw).bind fun _ hr => ensures_pure hr.2)
    · rename_i howns
      cases s with
      | leaf l => exact absurd rfl howns
      | string =>
        cases hk
        refine (ensures_next (Nat.lt_of_succ_lt hw)).bind fun r hr => ?_
        have hw : 2 ≤ words.length := hw
        refine (ensures_next (by omega)).bind fun r' hr' => ensures_pure ?_
        change r'.2.length + 2 = words.length
        omega
      | list element =>
        cases hk
        have helement : abi.PassableWithin d (abi.shape element) := h
        obtain ⟨layout, hl⟩ := helement.layout
        refine (ensures_next (Nat.lt_of_succ_lt hw)).bind fun r hr => ?_
        have hw : 2 ≤ words.length := hw
        refine (ensures_next (by omega)).bind fun r' hr' =>
          (ensures_freeList hl (fun _ _ => ensures_freeStored helement _ _) _ _).bind fun _ _ =>
            ensures_pure ?_
        change r'.2.length + 2 = words.length
        omega
      | product kind fields =>
        exact ensures_freeFieldWords (fun field hm own words => ih (h field hm)) hk hw
      | sum kind cases =>
        obtain ⟨slots, hslots⟩ := h.slots
        rw [Shape.flatten, hslots] at hk
        cases hk
        have hw : slots.length + 1 ≤ words.length := hw
        refine ensures_bind_liftM hslots ((ensures_next (by omega)).bind fun r hr => ?_)
        refine (ensures_take (by omega)).bind fun r' hr' => ?_
        refine (ensures_filterMapM fun entry hm => ?_).bind fun _ _ => ensures_pure ?_
        · obtain ⟨⟨label, case⟩, index⟩ := entry
          cases case with
          | none => exact ensures_pure True.intro
          | some shape =>
            have hcase := List.fst_mem_of_mem_zipIdx hm
            obtain ⟨own, hown, hjoin⟩ := Shape.fits_slots hslots hcase
            dsimp only
            split
            · exact ensures_pure True.intro
            · refine ensures_bind_liftM hown
                ((ensures_drainSlots hjoin hr'.1).bind fun r'' hr'' => ?_)
              exact (ih (h label shape hcase) hown (Nat.le_of_eq hr''.symm)).bind fun _ _ =>
                ensures_pure True.intro
        · change r'.2.length + (slots.length + 1) = words.length
          omega
      | unsupported | unresolved => exact h.elim

/-! ### Whole functions -/

section Functions

variable {sig : Signature} {ids : List TypeId} {values : List Local}

/-- All of the types are passable. -/
def AllPassable (abi : Abi) (ids : List TypeId) : Prop :=
  ∀ id ∈ ids, abi.Passable [] id

theorem AllPassable.offsets (h : AllPassable abi ids) :
    ∃ offsets, abi.fieldOffsets ids = .ok offsets := by
  refine Except.exists_map_eq_ok.2 (Abi.fieldLayouts_of_forall fun field hm => ?_)
  obtain ⟨id, hid, rfl⟩ := List.mem_map.1 hm
  exact (h id hid).within.layout

theorem ensures_storeAll (h : AllPassable abi ids) (values : List Local) (base : Local) :
    (storeAll abi ids values base).Ensures fun _ => True := by
  obtain ⟨offsets, ho⟩ := h.offsets
  refine ensures_bind_liftM ho ((ensures_mapM (R := fun _ _ => True) fun entry hm => ?_).bind
    fun _ _ => ensures_pure True.intro)
  exact ensures_store (h _ (List.of_mem_zip (List.of_mem_zip hm).1).1).within _ _ _

theorem ensures_loadAll (h : AllPassable abi ids) (base : Local) :
    (loadAll abi ids base).Ensures fun _ => True := by
  obtain ⟨offsets, ho⟩ := h.offsets
  refine ensures_bind_liftM ho ((ensures_mapM (R := fun _ _ => True) fun entry hm => ?_).bind
    fun _ _ => ensures_pure True.intro)
  exact ensures_load (h _ (List.of_mem_zip hm).1).within _ _

theorem ensures_freeAll (h : AllPassable abi ids) (base : Local) :
    (freeAll abi ids base).Ensures fun _ => True := by
  obtain ⟨offsets, ho⟩ := h.offsets
  refine ensures_bind_liftM ho ((ensures_mapM (R := fun _ _ => True) fun entry hm => ?_).bind
    fun _ _ => ensures_pure True.intro)
  exact ensures_freeStored (h _ (List.of_mem_zip hm).1).within _ _

theorem ensures_lowerAll (h : AllPassable abi ids) (values : List Local) :
    (lowerAll abi ids values).Ensures fun _ => True := by
  refine (ensures_mapM (R := fun _ _ => True) fun entry hm => ?_).bind
    fun _ _ => ensures_pure True.intro
  exact (ensures_lower (h _ (List.of_mem_zip hm).1).within _).trivial

theorem ensures_allocate (area : Layout) : (allocate area).Ensures fun _ => True :=
  ensures_fresh.bind fun _ _ => ensures_pure True.intro

theorem ensures_liftParams {kinds : List CoreType} {words : List Local} (h : AllPassable abi ids)
    (hk : Shape.flattenFields (abi.fieldsOf ids) = .ok kinds) (hw : kinds.length ≤ words.length) :
    (liftParams abi ids words).Ensures fun r => r.2.2.length + kinds.length = words.length := by
  induction ids generalizing kinds words with
  | nil =>
    cases hk
    exact ensures_pure rfl
  | cons id ids ih =>
    obtain ⟨hid, hrest⟩ := List.forall_mem_cons.1 h
    rw [Abi.fieldsOf, List.map_cons, Shape.flattenFields] at hk
    obtain ⟨first, hfirst, hk⟩ := Except.bind_eq_ok.1 hk
    obtain ⟨more, hmore, hk⟩ := Except.bind_eq_ok.1 hk
    cases hk
    rw [List.length_append] at hw ⊢
    refine ensures_bind_liftM hfirst ((ensures_take (by omega)).bind ?_)
    rintro ⟨own, rest⟩ hr
    have hown : own.length = first.length := hr.1
    have hleft : rest.length + first.length = words.length := hr.2
    refine (ensures_lift hid.within hfirst (Nat.le_of_eq hown.symm)).bind fun _ _ => ?_
    refine (ensures_freeFlat hid.within hfirst (Nat.le_of_eq hown.symm)).bind fun _ _ => ?_
    refine (ih hrest hmore (by omega)).bind ?_
    rintro ⟨_, _, rest'⟩ hr'
    refine ensures_pure ?_
    have hr' : rest'.length + more.length = rest.length := hr'
    change rest'.length + (first.length + more.length) = words.length
    omega

/-- A single result has the core results as its words. -/
theorem flatten_single {id : TypeId} (hs : Signed abi sig) (hr : sig.resultTypes = [id]) :
    (abi.shape id).flatten = .ok sig.flatResults := by
  have hflat := hs.results
  rw [hr, Abi.fieldsOf, List.map_singleton, Shape.flattenFields] at hflat
  obtain ⟨kinds, hk, hflat⟩ := Except.bind_eq_ok.1 hflat
  obtain ⟨more, hmore, hflat⟩ := Except.bind_eq_ok.1 hflat
  cases hmore
  rw [← Except.ok.inj hflat, List.append_nil]
  exact hk

theorem ensures_imported (hs : Signed abi sig)
    (hp : AllPassable abi sig.paramTypes) (hr : AllPassable abi sig.resultTypes)
    (module : Option String) (name : String) :
    (imported abi sig module name).Ensures fun _ => True := by
  rw [imported_eq]
  refine (ensures_freshList _).bind fun params _ => ?_
  refine Ensures.bind (P := fun _ => True) ?_ fun _ _ => ?_
  · cases sig.paramArea with
    | none => exact ensures_lowerAll hp params
    | some area =>
      exact (ensures_allocate area).bind fun _ _ => (ensures_storeAll hp _ _).bind fun _ _ =>
        ensures_pure True.intro
  refine Ensures.bind (P := fun r => r.2.length = sig.returnArea.toList.length) ?_
    fun ⟨reserving, pointer⟩ hpointer => ?_
  · cases sig.returnArea with
    | none => exact ensures_pure rfl
    | some area => exact (ensures_allocate area).bind fun _ _ => ensures_pure rfl
  refine (ensures_freshList _).bind fun results hresults => ?_
  refine Ensures.bind (P := fun _ => True) ?_ fun _ _ => ensures_pure True.intro
  have hpointer : pointer.length = sig.returnArea.toList.length := hpointer
  cases harea : sig.returnArea with
  | none =>
    match hids : sig.resultTypes, hs.single harea with
    | [], _ => exact ensures_pure True.intro
    | [id], _ =>
      have hid : abi.Passable [] id := hr id (hids ▸ List.mem_singleton_self id)
      have hk := flatten_single hs hids
      have hw : sig.flatResults.length ≤ results.length :=
        Nat.le_of_eq (by rw [hresults, hs.coreResults harea])
      exact (ensures_lift hid.within hk hw).bind fun _ _ =>
        (ensures_freeFlat hid.within hk hw).bind fun _ _ => ensures_pure True.intro
  | some area =>
    rw [harea] at hpointer
    obtain ⟨ptr, rfl⟩ := List.length_eq_one_iff.1 hpointer
    exact (ensures_loadAll hr ptr).bind fun _ _ => (ensures_freeAll hr ptr).bind fun _ _ =>
      ensures_pure True.intro

theorem ensures_postReturn (hs : Signed abi sig)
    (hr : AllPassable abi sig.resultTypes) (name : String) :
    (postReturn abi sig name).Ensures fun _ => True := by
  rw [postReturn_eq]
  refine Ensures.bind (P := fun _ => True) ?_ fun _ _ => ensures_pure True.intro
  cases harea : sig.returnArea with
  | some area =>
    exact ensures_fresh.bind fun ptr _ => (ensures_freeAll hr ptr).bind fun _ _ =>
      ensures_pure True.intro
  | none =>
    refine (ensures_freshList _).bind fun params hparams => ?_
    match hids : sig.resultTypes, hs.single harea with
    | [], _ => exact ensures_pure True.intro
    | [id], _ =>
      have hid : abi.Passable [] id := hr id (hids ▸ List.mem_singleton_self id)
      have hw : sig.flatResults.length ≤ params.length :=
        Nat.le_of_eq (by rw [hparams, hs.coreResults harea])
      exact (ensures_freeFlat hid.within (flatten_single hs hids) hw).bind fun _ _ =>
        ensures_pure True.intro

theorem ensures_exported (hs : Signed abi sig)
    (hp : AllPassable abi sig.paramTypes) (hr : AllPassable abi sig.resultTypes)
    (name : String) : (exported abi sig name).Ensures fun _ => True := by
  rw [exported_eq]
  refine (ensures_freshList _).bind fun params hparams => ?_
  rw [hs.coreParams] at hparams
  -- The address of the area for the results is what is left of the parameters.
  refine Ensures.bind (P := fun r => r.2.2.length = if sig.returnArea.isSome then 1 else 0) ?_
    fun ⟨lifting, args, words⟩ hleft => ?_
  · cases harea : sig.paramArea with
    | none =>
      rw [harea, Option.isSome_none, if_neg Bool.false_ne_true] at hparams
      refine (ensures_liftParams hp hs.params (by omega)).mono fun r hr => ?_
      omega
    | some area =>
      rw [harea, Option.isSome_some, if_pos rfl] at hparams
      refine (ensures_next (by omega)).bind fun ⟨ptr, words⟩ hr => ?_
      have hr : words.length + 1 = params.length := hr
      refine (ensures_loadAll hp ptr).bind fun _ _ => (ensures_freeAll hp ptr).bind fun _ _ =>
        ensures_pure ?_
      change words.length = _
      omega
  have hleft : words.length = if sig.returnArea.isSome then 1 else 0 := hleft
  refine Ensures.bind (P := fun _ => True) ?_ fun pointer _ => ?_
  · cases harea : sig.returnArea with
    | none => exact ensures_pure True.intro
    | some area =>
      rw [harea, Option.isSome_some, if_pos rfl] at hleft
      refine (ensures_next (by omega)).bind fun _ _ => ?_
      exact ensures_pure True.intro
  refine (ensures_freshList _).bind fun results _ => ?_
  refine Ensures.bind (P := fun _ => True) ?_ fun _ _ => ?_
  · cases pointer with
    | none => exact ensures_lowerAll hr results
    | some ptr =>
      refine (ensures_storeAll hr results ptr).bind fun _ _ => ?_
      exact ensures_pure True.intro
  refine Ensures.bind (P := fun _ => True) ?_ fun _ _ => ensures_pure True.intro
  rw [cleanup]
  split
  · rw [← bind_pure_comp]
    exact (ensures_postReturn hs hr name).bind fun _ _ => ensures_pure True.intro
  · exact ensures_pure True.intro

end Functions

end Plan

namespace Abi

open Plan PlanM

variable {abi : Abi} {sig : Signature} {func : TypeId}

/-- A function that has a signature has plans in both directions if all of its types are passable:
what a signature does not look at are the elements of lists. -/
theorem plan_accepts (hsig : abi.functionSignature func = .ok sig)
    (hp : AllPassable abi sig.paramTypes) (hr : AllPassable abi sig.resultTypes)
    (module : Option String) (name : String) (direction : Direction) :
    ∃ plan, abi.plan module name func direction = .ok plan := by
  have hs := signed_of_functionSignature hsig
  have hplan : (abi.planWith module name func direction).Ensures fun _ => True := by
    refine ensures_bind_liftM hsig ?_
    cases direction with
    | imported =>
      exact (ensures_imported hs hp hr module name).bind fun _ _ => ensures_pure True.intro
    | exported =>
      exact (ensures_exported hs hp hr name).bind fun _ _ => ensures_pure True.intro
  obtain ⟨plan, k, hgives, -⟩ := hplan 0
  exact ⟨plan, congrArg Prod.fst hgives⟩

theorem plan_accepts_packet :
    ∃ plan, packet.plan (some "host") "shuffle" ⟨4⟩ .exported = .ok plan := by
  have hbyte : ∀ path, ⟨0⟩ ∉ path → packet.Passable path ⟨0⟩ := fun path hnew =>
    .mk rfl hnew trivial fun _ hm => absurd hm List.not_mem_nil
  have hbytes : ∀ path, ⟨0⟩ ∉ path → ⟨1⟩ ∉ path → packet.Passable path ⟨1⟩ :=
    fun path hbyte' hnew => .mk rfl hnew trivial fun part hm => by
      cases List.mem_singleton.1 hm
      exact hbyte _ (by simpa using hbyte')
  have hrecord : packet.Passable [] ⟨3⟩ := by
    refine .mk rfl List.not_mem_nil trivial (List.forall_mem_cons.2 ⟨?_, ?_⟩)
    · exact hbytes _ (by decide) (by decide)
    · refine List.forall_mem_singleton.2 (.mk rfl (by decide)
        (show 3 ≤ maxFlags by decide) ?_)
      exact fun _ hm => absurd hm List.not_mem_nil
  exact plan_accepts functionSignature_packet (List.forall_mem_singleton.2 hrecord)
    (List.forall_mem_singleton.2 (hbytes [] List.not_mem_nil List.not_mem_nil)) _ _ _

/-- A function on a stream in a list, next to a resource. -/
def hiddenStream : Abi where
  arena := ⟨#[.stream none, .list ⟨0⟩, .resource { name := { name := "file" } },
    .tuple [⟨1⟩, ⟨2⟩], .function { params := [("p", ⟨3⟩)], results := [] }]⟩

/-- The search for handles finds the resource first and does not get to the stream, so the function
has a signature, but no plans. -/
theorem signature_hides_element :
    (∃ sig, hiddenStream.functionSignature ⟨4⟩ = .ok sig) ∧
      ∀ direction, hiddenStream.plan none "f" ⟨4⟩ direction =
        .error (.unsupportedType "stream cannot be passed as a value") := by
  refine ⟨⟨_, rfl⟩, fun direction => ?_⟩
  cases direction <;> rfl

end Abi

end ComponentAbi
