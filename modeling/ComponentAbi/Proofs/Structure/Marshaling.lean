import ComponentAbi.Proofs.Native.Lower
import ComponentAbi.Proofs.Structure.Unfolding

/-!
# Values of types with the same structure

Values of alike shapes are passed and read alike, step by step: the same is written, handed out and
read, and an error comes at the same point (`Abi.sameRun_lowerWithin`, `Abi.same_readWithin`). Where
a list leads from one shape to the next, the element type has a layout, so that it contains itself
through lists only and has alike shapes in both graphs.
-/

namespace ComponentAbi

/-! ### Runs -/

namespace MemoryM

variable {α β γ δ : Type} {P : α → β → Prop} {Q : γ → δ → Prop} {x : MemoryM α} {y : MemoryM β}
  {f : α → MemoryM γ} {g : β → MemoryM δ}

/-- On every memory, the steps have the same answer and leave the same memory. -/
def SameRun (P : α → β → Prop) (x : MemoryM α) (y : MemoryM β) : Prop :=
  ∀ m, SameAnswer P (runOn x m).1 (runOn y m).1 ∧ (runOn x m).2 = (runOn y m).2

theorem SameRun.refl (x : MemoryM α) : SameRun Eq x x :=
  fun _ => ⟨.refl _, rfl⟩

theorem sameRun_throw {e e' : AbiError} (h : e.Alike e') :
    SameRun P (throw e : MemoryM α) (throw e' : MemoryM β) :=
  fun _ => ⟨.error h, rfl⟩

theorem SameRun.bind (h : SameRun P x y) (hf : ∀ a b, P a b → SameRun Q (f a) (g b)) :
    SameRun Q (x >>= f) (y >>= g) := by
  intro m
  have hm := h m
  rw [runOn_bind, runOn_bind]
  generalize runOn x m = left at hm ⊢
  generalize runOn y m = right at hm ⊢
  obtain ⟨r, m₁⟩ := left
  obtain ⟨r', _⟩ := right
  obtain ⟨hanswer, rfl⟩ := hm
  cases hanswer with
  | ok related => exact hf _ _ related m₁
  | error alike => exact ⟨.error alike, rfl⟩

theorem SameRun.bind_liftM {x : Except AbiError α} {y : Except AbiError β} (h : SameAnswer P x y)
    (hf : ∀ a b, x = .ok a → y = .ok b → P a b → SameRun Q (f a) (g b)) :
    SameRun Q (liftM x >>= f) (liftM y >>= g) := by
  cases h with
  | ok related => exact hf _ _ rfl rfl related
  | error alike => exact sameRun_throw alike

theorem SameRun.mapM {xs : List α} {ys : List β} {f : α → MemoryM γ} {g : β → MemoryM γ}
    (h : List.Forall₂ P xs ys) (hf : ∀ a b, P a b → SameRun Eq (f a) (g b)) :
    SameRun Eq (xs.mapM f) (ys.mapM g) := by
  induction h with
  | nil => exact .refl _
  | cons hab _ ih =>
    rw [List.mapM_cons, List.mapM_cons]
    refine (hf _ _ hab).bind ?_
    rintro c _ rfl
    refine ih.bind ?_
    rintro cs _ rfl
    exact .refl _

theorem SameRun.forM {xs : List α} {ys : List β} {f : α → MemoryM PUnit} {g : β → MemoryM PUnit}
    (h : List.Forall₂ P xs ys) (hf : ∀ a b, P a b → SameRun Eq (f a) (g b)) :
    SameRun Eq (xs.forM f) (ys.forM g) := by
  induction h with
  | nil => exact .refl _
  | cons hab _ ih => exact (hf _ _ hab).bind fun _ _ _ => ih

end MemoryM

/-! ### Parts -/

section Parts

variable {R : TypeId → TypeId → Prop} {kind kind' : SumKind}
  {cases cases' : List (String × Option Shape)}

/-- A payload and its type, next to the same payload and a type of an alike shape. -/
def PairAlike (R : TypeId → TypeId → Prop) (pair pair' : Shape × Value) : Prop :=
  pair.1.Alike R pair'.1 ∧ pair.2 = pair'.2

theorem same_pairPayload {s s' : Option Shape} (h : Option.Rel (Shape.Alike R) s s')
    (v : Option Value) :
    SameAnswer (Option.Rel (PairAlike R)) (pairPayload s v) (pairPayload s' v) := by
  cases h with
  | none =>
    cases v with
    | none => exact .ok .none
    | some v => exact .error (.refl _)
  | some h =>
    cases v with
    | none => exact .error (.refl _)
    | some v => exact .ok (.some ⟨h, rfl⟩)

theorem Shape.CasesAlike.select (h : CasesAlike R cases cases') (hkind : kind.Alike kind')
    (v : Value) : SameAnswer (fun c c' => c.1 = c'.1 ∧ Option.Rel (PairAlike R) c.2 c'.2)
      (kind.select cases v) (kind'.select cases' v) := by
  unfold SumKind.select
  rw [h.labels, hkind.caseOf]
  refine (SameAnswer.refl _).bind ?_
  rintro ⟨index, payload⟩ _ rfl
  have hcase : Option.Rel (Shape.Alike R) (cases[index]?.bind (·.2))
      (cases'[index]?.bind (·.2)) := by
    have hat := forall₂_getElem? (casesAlike_iff.1 h) index
    generalize cases[index]? = case at hat ⊢
    generalize cases'[index]? = case' at hat ⊢
    cases hat with
    | none => exact .none
    | some hcase => exact hcase.2
  exact (same_pairPayload hcase payload).bind fun _ _ hpair => .ok ⟨rfl, hpair⟩

theorem Shape.CasesAlike.caseAt (h : CasesAlike R cases cases') (index : Nat) :
    SameAnswer (CaseAlike R) (caseAt cases index) (caseAt cases' index) := by
  have hcases := casesAlike_iff.1 h
  have hat := forall₂_getElem? hcases index
  rw [ComponentAbi.caseAt, ComponentAbi.caseAt, hcases.length_eq]
  generalize cases[index]? = case at hat ⊢
  generalize cases'[index]? = case' at hat ⊢
  cases hat with
  | none => exact .error (.refl _)
  | some hcase => exact .ok hcase

end Parts

namespace Abi

open MemoryM

variable {abi abi' : Abi} {s s' : Shape} {element element' : TypeId}

/-! ### Lowering -/

theorem sameRun_lowerItems {store store' : Shape → Value → Nat → MemoryM Unit}
    (h : abi.Alike abi' element element')
    (hstore : ∀ s s' v p, s.Alike (abi.Alike abi') s' → SameRun Eq (store s v p) (store' s' v p))
    (items : List Value) :
    SameRun Eq (abi.lowerItems store element items) (abi'.lowerItems store' element' items) := by
  refine SameRun.bind_liftM h.layout ?_
  rintro l _ hl _ rfl
  have hshape := h.shape (Shape.wellNested_of_layout hl)
  refine (SameRun.refl _).bind ?_
  rintro start _ rfl
  have hitems : List.Forall₂ Eq items.zipIdx items.zipIdx := List.forall₂_same.2 fun _ _ => rfl
  refine (SameRun.forM hitems ?_).bind fun _ _ _ => .refl _
  rintro ⟨item, i⟩ _ rfl
  exact hstore _ _ _ _ hshape

/-- A value of an alike shape is stored in the same way. -/
theorem sameRun_storeWithin (h : s.Alike (abi.Alike abi') s') (d : Nat) (v : Value) (p : Nat) :
    SameRun Eq (abi.storeWithin d s v p) (abi'.storeWithin d s' v p) := by
  induction d generalizing s s' v p with
  | zero => exact .refl _
  | succ d ih =>
    cases h with
    | leaf same =>
      refine SameRun.bind_liftM (same.encode v) ?_
      rintro bits _ - - rfl
      exact same.width ▸ .refl _
    | string => cases v <;> exact .refl _
    | list same =>
      cases v with
      | list items =>
        refine (sameRun_lowerItems same (fun s s' v p h => ih h v p) items).bind ?_
        rintro pair _ rfl
        exact .refl _
      | _ => exact .refl _
    | @product kind kind' fields fields' same alike =>
      have hparts : kind.parts (fields.map (·.1)) v = kind'.parts (fields'.map (·.1)) v := by
        rw [alike.labels, same.parts]
      refine SameRun.bind_liftM (.of_eq hparts) ?_
      rintro parts _ - - rfl
      refine SameRun.bind_liftM alike.offsets ?_
      rintro offsets _ - - rfl
      refine SameRun.forM (forall₂_zip_right (forall₂_zip_right
        (Shape.fieldsAlike_iff.1 alike) parts) offsets) ?_
      rintro ⟨⟨⟨_, field⟩, part⟩, offset⟩ ⟨⟨⟨_, field'⟩, _⟩, _⟩ ⟨⟨⟨-, hfield⟩, rfl⟩, rfl⟩
      refine SameRun.bind_liftM (.refl part) ?_
      rintro v _ - - rfl
      exact ih hfield v _
    | @sum kind kind' cases cases' same alike =>
      refine SameRun.bind_liftM (alike.select same v) ?_
      rintro ⟨index, payload⟩ ⟨_, payload'⟩ - - ⟨rfl, hpayload⟩
      refine SameRun.bind_liftM (alike.sumLayout same) ?_
      rintro layout _ - - rfl
      refine (SameRun.refl _).bind fun _ _ _ => ?_
      cases hpayload with
      | none => exact .refl _
      | @some pair pair' hpair =>
        obtain ⟨s, v⟩ := pair
        obtain ⟨s', _⟩ := pair'
        obtain ⟨hs, rfl⟩ := hpair
        exact ih hs v _
    | unsupported => exact .refl _
    | unresolved same => exact sameRun_throw same

/-- A value of an alike shape is passed as the same words. -/
theorem sameRun_lowerWithin (h : s.Alike (abi.Alike abi') s') (d : Nat) (v : Value) :
    SameRun Eq (abi.lowerWithin d s v) (abi'.lowerWithin d s' v) := by
  induction d generalizing s s' v with
  | zero => exact .refl _
  | succ d ih =>
    cases h with
    | leaf same =>
      refine SameRun.bind_liftM (same.encode v) ?_
      rintro bits _ - - rfl
      exact same.core ▸ .refl _
    | string => cases v <;> exact .refl _
    | list same =>
      cases v with
      | list items =>
        refine SameRun.bind
          (sameRun_lowerItems same (fun s s' v p h => sameRun_storeWithin h d v p) items) ?_
        rintro pair _ rfl
        exact .refl _
      | _ => exact .refl _
    | @product kind kind' fields fields' same alike =>
      have hparts : kind.parts (fields.map (·.1)) v = kind'.parts (fields'.map (·.1)) v := by
        rw [alike.labels, same.parts]
      refine SameRun.bind_liftM (.of_eq hparts) ?_
      rintro parts _ - - rfl
      refine (SameRun.mapM (forall₂_zip_right (Shape.fieldsAlike_iff.1 alike) parts) ?_).bind ?_
      · rintro ⟨⟨_, field⟩, part⟩ ⟨⟨_, field'⟩, _⟩ ⟨⟨-, hfield⟩, rfl⟩
        refine SameRun.bind_liftM (.refl part) ?_
        rintro v _ - - rfl
        exact ih hfield v
      · rintro words _ rfl
        exact .refl _
    | @sum kind kind' cases cases' same alike =>
      refine SameRun.bind_liftM (alike.select same v) ?_
      rintro ⟨index, payload⟩ ⟨_, payload'⟩ - - ⟨rfl, hpayload⟩
      refine SameRun.bind_liftM alike.flatten ?_
      rintro slots _ - - rfl
      have hfill {own own' : MemoryM (List Word)} (h : SameRun Eq own own') : SameRun Eq
          (do
            let words ← own
            let filled ← liftM (Shape.fillSlots slots words)
            return Word.ofNat index :: filled)
          (do
            let words ← own'
            let filled ← liftM (Shape.fillSlots slots words)
            return Word.ofNat index :: filled) := by
        refine h.bind ?_
        rintro words _ rfl
        exact .refl _
      cases hpayload with
      | none => exact .refl _
      | @some pair pair' hpair =>
        obtain ⟨s, v⟩ := pair
        obtain ⟨s', _⟩ := pair'
        obtain ⟨hs, rfl⟩ := hpair
        exact hfill (ih hs v)
    | unsupported => exact .refl _
    | unresolved same => exact sameRun_throw same

/-! ### Lifting -/

variable {m : Memory}

theorem same_loadItems {load load' : Shape → Nat → Except AbiError Value}
    (h : abi.Alike abi' element element')
    (hload : ∀ s s' p, s.Alike (abi.Alike abi') s' → SameAnswer Eq (load s p) (load' s' p))
    (pointer length : Nat) :
    SameAnswer Eq (abi.loadItems m load element pointer length)
      (abi'.loadItems m load' element' pointer length) := by
  refine h.layout.bind_of ?_
  rintro l _ hl _ rfl
  have hshape := h.shape (Shape.wellNested_of_layout hl)
  refine (SameAnswer.refl (itemBytes m pointer l.size length)).bind ?_
  rintro total _ rfl
  refine (SameAnswer.refl (m.read pointer total)).bind fun _ _ _ => ?_
  refine SameAnswer.mapM (List.forall₂_same.2 fun _ _ => rfl) ?_
  rintro i _ rfl
  exact hload _ _ _ hshape

/-- A value of an alike shape is loaded in the same way. -/
theorem same_loadWithin (h : s.Alike (abi.Alike abi') s') (d p : Nat) :
    SameAnswer Eq (abi.loadWithin m d s p) (abi'.loadWithin m d s' p) := by
  induction d generalizing s s' p with
  | zero => exact .refl _
  | succ d ih =>
    cases h with
    | leaf same =>
      refine (SameAnswer.of_eq (congrArg (m.readNat p) same.width)).bind ?_
      rintro n _ rfl
      exact same.decode n
    | string => exact .refl _
    | list same =>
      refine (SameAnswer.refl (loadPair m p)).bind ?_
      rintro ⟨start, length⟩ _ rfl
      refine (same_loadItems same (fun s s' p h => ih h p) start length).bind ?_
      rintro items _ rfl
      exact .refl _
    | @product kind kind' fields fields' same alike =>
      refine alike.offsets.bind ?_
      rintro offsets _ rfl
      refine (SameAnswer.mapM
        (forall₂_zip_right (Shape.fieldsAlike_iff.1 alike) offsets) ?_).bind ?_
      · rintro ⟨⟨_, field⟩, offset⟩ ⟨⟨_, field'⟩, _⟩ ⟨⟨-, hfield⟩, rfl⟩
        exact ih hfield _
      · rintro values _ rfl
        exact .ok (by rw [alike.labels, same.build])
    | @sum kind kind' cases cases' same alike =>
      refine (alike.sumLayout same).bind ?_
      rintro layout _ rfl
      refine (SameAnswer.refl _).bind ?_
      rintro index _ rfl
      refine (alike.caseAt index).bind ?_
      rintro ⟨label, payload⟩ ⟨_, payload'⟩ ⟨rfl, hpayload⟩
      cases hpayload with
      | none => exact .ok (same.build _ _ _)
      | some hs =>
        refine (ih hs _).bind ?_
        rintro v _ rfl
        exact .ok (same.build _ _ _)
    | unsupported same => exact .error same
    | unresolved same => exact .error same

theorem same_readFields {read read' : Shape → WordReader → Except AbiError (Value × WordReader)}
    {fields fields' : List (String × Shape)} (h : Shape.FieldsAlike (abi.Alike abi') fields fields')
    (hread : ∀ s s' r, s.Alike (abi.Alike abi') s' → SameAnswer Eq (read s r) (read' s' r))
    (r : WordReader) : SameAnswer Eq (readFields read fields r) (readFields read' fields' r) := by
  induction fields generalizing fields' r with
  | nil =>
    cases h
    exact .refl _
  | cons field fields ih =>
    cases h with
    | cons first rest =>
      refine (hread _ _ r first).bind ?_
      rintro ⟨v, r⟩ _ rfl
      refine (ih rest r).bind ?_
      rintro ⟨vs, r⟩ _ rfl
      exact .refl _

/-- The same words stand for the same value of an alike shape. -/
theorem same_readWithin (h : s.Alike (abi.Alike abi') s') (d : Nat) (r : WordReader) :
    SameAnswer Eq (abi.readWithin m d s r) (abi'.readWithin m d s' r) := by
  induction d generalizing s s' r with
  | zero => exact .refl _
  | succ d ih =>
    cases h with
    | leaf same =>
      refine (SameAnswer.of_eq (congrArg r.next same.core)).bind ?_
      rintro ⟨n, r⟩ _ rfl
      refine (same.decode n).bind ?_
      rintro v _ rfl
      exact .refl _
    | string => exact .refl _
    | list same =>
      refine (SameAnswer.refl (r.next .i32)).bind ?_
      rintro ⟨start, r⟩ _ rfl
      refine (SameAnswer.refl (r.next .i32)).bind ?_
      rintro ⟨length, r⟩ _ rfl
      refine (same_loadItems same (fun s s' p h => same_loadWithin h d p) start length).bind ?_
      rintro items _ rfl
      exact .refl _
    | @product kind kind' fields fields' same alike =>
      refine (same_readFields alike (fun s s' r h => ih h r) r).bind ?_
      rintro ⟨values, r⟩ _ rfl
      exact .ok (by rw [alike.labels, same.build])
    | @sum kind kind' cases cases' same alike =>
      refine alike.flatten.bind ?_
      rintro slots _ rfl
      refine (SameAnswer.refl (r.next .i32)).bind ?_
      rintro ⟨index, r⟩ _ rfl
      refine (SameAnswer.refl (r.take slots.length)).bind ?_
      rintro ⟨words, r⟩ _ rfl
      refine (alike.caseAt index).bind ?_
      rintro ⟨label, payload⟩ ⟨_, payload'⟩ ⟨rfl, hpayload⟩
      cases hpayload with
      | none => exact .ok (by rw [same.build])
      | some hs =>
        refine hs.flatten.bind ?_
        rintro kinds _ rfl
        refine (SameAnswer.refl (drainSlots words kinds)).bind ?_
        rintro own _ rfl
        refine (ih hs _).bind ?_
        rintro ⟨v, rest⟩ _ rfl
        refine (SameAnswer.refl rest.finish).bind fun _ _ _ => ?_
        exact .ok (by rw [same.build])
    | unsupported same => exact .error same
    | unresolved same => exact .error same

end Abi

end ComponentAbi
