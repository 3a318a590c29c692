import ComponentAbi.Marshal.Lift
import ComponentAbi.Proofs.Except
import ComponentAbi.Proofs.Memory.Growth
import ComponentAbi.Proofs.Shape.Placement
import ComponentAbi.Proofs.Shape.Unfold
import Mathlib.Data.List.Nodup
import Mathlib.Data.List.Perm.Subperm
import Mathlib.Data.List.ProdSigma
import Mathlib.Logic.Relation

/-!
# When lifting ends

Lifting follows the addresses that it finds. A type may contain itself through a list, and the
memory comes from outside, so a list item may lie inside itself: then following the addresses never
ends, to whatever depth it is done. `Abi.Inside` says of two places which one is come to from the
other, where everything that is read before can be read.

* `Abi.deepens_loadWithin`, `Abi.deepens_readWithin` : with more depth the answer is the same, once
  there is one;
* `Abi.Unfinished.step`, `Abi.Unfinished.of_inside` : the depth is not enough for a place if and
  only if one less is not enough for a place inside it;
* `Abi.not_unfinished_of_acyclic` : if no place is inside itself, no more steps than there are pairs
  of a type and an address lead from one list to the next;
* `Abi.liftFlat_eq_liftWithin` : the bound on the depth of lifting changes no answer;
* `Abi.lift_ends_iff` : lifting ends exactly if no place that it comes to is inside itself;
* `Abi.lift_never_ends` : a list that is its own only item.
-/

namespace ComponentAbi

/-! ### Answers that need more depth -/

section Answers

variable {α β : Type} {x y : Except AbiError α} {f g : α → Except AbiError β}

/-- The answer is that the depth was not enough. -/
def Unanswered (x : Except AbiError α) : Prop :=
  x = .error .unboundedNesting

theorem not_unanswered_ok (a : α) : ¬Unanswered (.ok a) :=
  fun h => by cases h

theorem unanswered_bind :
    Unanswered (x >>= f) ↔ Unanswered x ∨ ∃ a, x = .ok a ∧ Unanswered (f a) := by
  cases x <;> simp [Unanswered, bind, Except.bind]

theorem Unanswered.bind (h : Unanswered x) : Unanswered (x >>= f) :=
  unanswered_bind.2 (.inl h)

theorem Unanswered.map {h : α → β} (hx : Unanswered x) : Unanswered (x.map h) := by
  cases hx
  rfl

theorem Unanswered.after {a : α} (hx : x = .ok a) (h : Unanswered (f a)) : Unanswered (x >>= f) :=
  unanswered_bind.2 (.inr ⟨a, hx, h⟩)

theorem Unanswered.rest (h : Unanswered (x >>= f)) (hx : ¬Unanswered x) :
    ∃ a, x = .ok a ∧ Unanswered (f a) :=
  (unanswered_bind.1 h).resolve_left hx

theorem Unanswered.first (h : Unanswered (x >>= f)) (hf : ∀ a, ¬Unanswered (f a)) : Unanswered x :=
  (unanswered_bind.1 h).resolve_right fun ⟨a, _, h⟩ => hf a h

theorem not_unanswered_bind (hx : ¬Unanswered x) (hf : ∀ a, x = .ok a → ¬Unanswered (f a)) :
    ¬Unanswered (x >>= f) := fun h =>
  (unanswered_bind.1 h).elim hx fun ⟨a, ha, h⟩ => hf a ha h

theorem not_unanswered_map {h : α → β} (hx : ¬Unanswered x) : ¬Unanswered (x.map h) := by
  cases x with
  | error e =>
    intro he
    cases he
    exact hx rfl
  | ok a => exact not_unanswered_ok _

/-- The first of a row without an answer comes after some that have one. -/
theorem exists_of_unanswered_mapM {xs : List α} (h : Unanswered (xs.mapM f)) :
    ∃ before x after, xs = before ++ x :: after ∧ (∀ z ∈ before, ∃ b, f z = .ok b) ∧
      Unanswered (f x) := by
  induction xs with
  | nil => cases h
  | cons x xs ih =>
    rw [List.mapM_cons] at h
    rcases unanswered_bind.1 h with h | ⟨b, hb, h⟩
    · exact ⟨[], x, xs, rfl, fun _ hz => absurd hz List.not_mem_nil, h⟩
    · obtain ⟨before, x', after, rfl, hbefore, hx'⟩ := ih (h.first fun _ => not_unanswered_ok _)
      exact ⟨x :: before, x', after, rfl, List.forall_mem_cons.2 ⟨⟨b, hb⟩, hbefore⟩, hx'⟩

theorem unanswered_mapM {before after : List α} {z : α}
    (hbefore : ∀ z ∈ before, Unanswered (f z) ∨ ∃ b, f z = .ok b) (hz : Unanswered (f z)) :
    Unanswered ((before ++ z :: after).mapM f) := by
  induction before with
  | nil =>
    rw [List.nil_append, List.mapM_cons]
    exact hz.bind
  | cons first before ih =>
    obtain ⟨hfirst, hbefore⟩ := List.forall_mem_cons.1 hbefore
    rw [List.cons_append, List.mapM_cons]
    rcases hfirst with h | ⟨b, hb⟩
    · exact h.bind
    · exact .after hb (ih hbefore).bind

/-! ### More depth -/

/-- The second answer is the first one, if that is an answer. -/
def Deepens (x y : Except AbiError α) : Prop :=
  Unanswered x ∨ y = x

theorem Deepens.refl (x : Except AbiError α) : Deepens x x :=
  .inr rfl

theorem Deepens.bind (h : Deepens x y) (hf : ∀ a, Deepens (f a) (g a)) :
    Deepens (x >>= f) (y >>= g) := by
  rcases h with h | rfl
  · exact .inl h.bind
  · cases y with
    | error e => exact .inr rfl
    | ok a => exact hf a

theorem deepens_mapM {xs : List α} (h : ∀ x, Deepens (f x) (g x)) :
    Deepens (xs.mapM f) (xs.mapM g) := by
  induction xs with
  | nil => exact .refl _
  | cons x xs ih =>
    rw [List.mapM_cons, List.mapM_cons]
    exact (h x).bind fun _ => ih.bind fun _ => .refl _

variable {F : Nat → Except AbiError α}

theorem Deepens.of_le (h : ∀ d, Deepens (F d) (F (d + 1))) {d d' : Nat} (hd : d ≤ d') :
    Deepens (F d) (F d') := by
  induction hd with
  | refl => exact .refl _
  | @step d' _ ih =>
    rcases ih with ih | ih
    · exact .inl ih
    · rcases h d' with h | h
      · exact .inl (ih ▸ h)
      · exact .inr (h.trans ih)

/-- What there is at some depth is all that there can be at any depth. -/
theorem Deepens.eq_or (h : ∀ d, Deepens (F d) (F (d + 1))) {d : Nat} (hd : ¬Unanswered (F d))
    (d' : Nat) : Unanswered (F d') ∨ F d' = F d := by
  rcases Nat.le_total d d' with hle | hle
  · exact .inr ((Deepens.of_le h hle).resolve_left hd)
  · exact (Deepens.of_le h hle).imp_right Eq.symm

end Answers

/-! ### Steps that need no depth -/

section Steps

variable {m : Memory} {p width length index : Nat} {r : WordReader} {t : CoreType}

theorem not_unanswered_read : ¬Unanswered (m.read p length) := by
  unfold Memory.read
  intro h
  split at h
  · cases h
  · split at h <;> cases h

theorem not_unanswered_itemBytes {size : Nat} : ¬Unanswered (itemBytes m p size length) := by
  intro h
  rw [itemBytes] at h
  split at h <;> cases h

theorem not_unanswered_readNat : ¬Unanswered (m.readNat p width) :=
  not_unanswered_map not_unanswered_read

theorem not_unanswered_loadPair : ¬Unanswered (loadPair m p) :=
  not_unanswered_bind not_unanswered_readNat fun _ _ =>
    not_unanswered_bind not_unanswered_readNat fun _ _ => not_unanswered_ok _

theorem not_unanswered_liftString : ¬Unanswered (liftString m p length) := by
  refine not_unanswered_bind not_unanswered_read fun data _ h => ?_
  split at h <;> cases h

theorem not_unanswered_check (l : Leaf) : ¬Unanswered l.check := by
  intro h
  cases l with
  | flags name labels =>
    rw [Leaf.check] at h
    split at h <;> cases h
  | _ => cases h

theorem not_unanswered_decode (l : Leaf) (n : Nat) : ¬Unanswered (l.decode n) := by
  cases l with
  | scalar s =>
    cases s with
    | char =>
      intro h
      simp only [Leaf.decode, Scalar.decode] at h
      split at h <;> cases h
    | _ => exact not_unanswered_ok _
  | enum cases =>
    intro h
    rw [Leaf.decode] at h
    split at h <;> cases h
  | flags name labels =>
    exact not_unanswered_bind (not_unanswered_check _) fun _ _ => not_unanswered_ok _
  | own | borrow => exact not_unanswered_ok _

theorem not_unanswered_next : ¬Unanswered (r.next t) := by
  intro h
  rw [WordReader.next] at h
  cases hr : r.rest with
  | nil => rw [hr] at h; cases h
  | cons w rest =>
    rw [hr] at h
    refine not_unanswered_map (fun h => ?_) h
    rw [Word.expect] at h
    split at h <;> cases h

theorem not_unanswered_take {n : Nat} : ¬Unanswered (r.take n) := by
  intro h
  rw [WordReader.take] at h
  split at h <;> cases h

theorem not_unanswered_finish : ¬Unanswered r.finish := by
  intro h
  rw [WordReader.finish] at h
  split at h <;> cases h

theorem not_unanswered_caseAt {α : Type} {cases : List α} : ¬Unanswered (caseAt cases index) := by
  intro h
  rw [caseAt] at h
  split at h <;> cases h

theorem not_unanswered_uncoerce {w : Word} : ¬Unanswered (w.uncoerce t) := by
  intro h
  rw [Word.uncoerce] at h
  split at h
  · rw [Word.cast] at h
    split at h
    · cases h
    · split at h <;> cases h
  · cases h

theorem not_unanswered_drainSlots (words : List Word) (kinds : List CoreType) :
    ¬Unanswered (drainSlots words kinds) := by
  induction words generalizing kinds with
  | nil => exact not_unanswered_ok _
  | cons w words ih =>
    cases kinds with
    | nil => exact not_unanswered_ok _
    | cons t kinds =>
      exact not_unanswered_bind not_unanswered_uncoerce fun _ _ =>
        not_unanswered_bind (ih kinds) fun _ _ => not_unanswered_ok _

theorem mem_of_caseAt {α : Type} {cases : List α} {c : α} (h : caseAt cases index = .ok c) :
    c ∈ cases := by
  rw [caseAt] at h
  cases hc : cases[index]? with
  | none => rw [hc] at h; cases h
  | some c' =>
    rw [hc] at h
    cases h
    exact List.mem_of_getElem? hc

end Steps

/-! ### Types that contain themselves through lists only -/

namespace Shape

mutual

/-- No type in the shape contains itself without a list in between. -/
def wellNested : Shape → Bool
  | product _ fields => fieldsWellNested fields
  | sum _ cases => casesWellNested cases
  | unresolved cause => cause ≠ .unboundedNesting
  | leaf _ | string | list _ | unsupported .. => true
termination_by structural s => s

/-- Nor does any type in the fields. -/
def fieldsWellNested : List (String × Shape) → Bool
  | [] => true
  | (_, field) :: rest => field.wellNested && fieldsWellNested rest
termination_by structural fields => fields

/-- Nor does any type in the payloads. -/
def casesWellNested : List (String × Option Shape) → Bool
  | [] => true
  | (_, none) :: rest => casesWellNested rest
  | (_, some payload) :: rest => payload.wellNested && casesWellNested rest
termination_by structural cases => cases

end

theorem wellNested_of_field {fields : List (String × Shape)} (h : fieldsWellNested fields = true)
    {field : String × Shape} (hm : field ∈ fields) : field.2.wellNested = true := by
  induction fields with
  | nil => cases hm
  | cons first fields ih =>
    rw [fieldsWellNested, Bool.and_eq_true] at h
    rcases List.mem_cons.1 hm with rfl | hm
    · exact h.1
    · exact ih h.2 hm

theorem wellNested_of_case {cases : List (String × Option Shape)}
    (h : casesWellNested cases = true) {label : String} {s : Shape}
    (hm : (label, some s) ∈ cases) : s.wellNested = true := by
  induction cases with
  | nil => cases hm
  | cons case cases ih =>
    obtain ⟨other, payload⟩ := case
    cases payload with
    | none =>
      rw [casesWellNested] at h
      refine ih h ((List.mem_cons.1 hm).resolve_left fun he => ?_)
      cases he
    | some payload =>
      rw [casesWellNested, Bool.and_eq_true] at h
      rcases List.mem_cons.1 hm with he | hm
      · cases he
        exact h.1
      · exact ih h.2 hm

mutual

/-- Such types are laid out and flattened without running into themselves. -/
theorem answered_of_wellNested : (s : Shape) → s.wellNested = true →
    ¬Unanswered s.layout ∧ ¬Unanswered s.flatten
  | leaf l, _ => by
    rw [layout, flatten]
    exact ⟨not_unanswered_map (not_unanswered_check l), not_unanswered_map (not_unanswered_check l)⟩
  | string, _ | list _, _ => ⟨not_unanswered_ok _, not_unanswered_ok _⟩
  | product kind fields, h => by
    obtain ⟨hlayouts, hwords⟩ := fields_answered fields h
    rw [layout, flatten]
    exact ⟨not_unanswered_map hlayouts, hwords⟩
  | sum kind cases, h => by
    obtain ⟨hlayouts, hwords⟩ := cases_answered cases h
    rw [layout, flatten]
    exact ⟨not_unanswered_map hlayouts, not_unanswered_map hwords⟩
  | unsupported .., _ => by constructor <;> (intro h; cases h)
  | unresolved cause, h => by
    have hcause : cause ≠ .unboundedNesting := by simpa [wellNested] using h
    exact ⟨fun he => hcause (Except.error.inj he), fun he => hcause (Except.error.inj he)⟩
termination_by structural s => s

theorem fields_answered : (fields : List (String × Shape)) → fieldsWellNested fields = true →
    ¬Unanswered (fieldLayouts fields) ∧ ¬Unanswered (flattenFields fields)
  | [], _ => ⟨not_unanswered_ok _, not_unanswered_ok _⟩
  | (_, s) :: fields, h => by
    rw [fieldsWellNested, Bool.and_eq_true] at h
    obtain ⟨hlayout, hwords⟩ := answered_of_wellNested s h.1
    obtain ⟨hlayouts, hmore⟩ := fields_answered fields h.2
    rw [fieldLayouts, flattenFields]
    exact ⟨not_unanswered_bind hlayout fun _ _ => not_unanswered_bind hlayouts fun _ _ =>
        not_unanswered_ok _,
      not_unanswered_bind hwords fun _ _ => not_unanswered_bind hmore fun _ _ =>
        not_unanswered_ok _⟩
termination_by structural fields => fields

theorem cases_answered : (cases : List (String × Option Shape)) → casesWellNested cases = true →
    ¬Unanswered (payloadLayouts cases) ∧ ¬Unanswered (flattenCases cases)
  | [], _ => ⟨not_unanswered_ok _, not_unanswered_ok _⟩
  | (_, none) :: cases, h => cases_answered cases h
  | (_, some s) :: cases, h => by
    rw [casesWellNested, Bool.and_eq_true] at h
    obtain ⟨hlayout, hwords⟩ := answered_of_wellNested s h.1
    obtain ⟨hlayouts, hmore⟩ := cases_answered cases h.2
    rw [payloadLayouts, flattenCases]
    exact ⟨not_unanswered_bind hlayout fun _ _ => not_unanswered_bind hlayouts fun _ _ =>
        not_unanswered_ok _,
      not_unanswered_bind hwords fun _ _ => not_unanswered_bind hmore fun _ _ =>
        not_unanswered_ok _⟩
termination_by structural cases => cases

end

end Shape

namespace Abi

variable {abi : Abi} {m : Memory} {s : Shape} {p d d' start length : Nat} {r : WordReader}
  {element : TypeId}

/-- A type of the graph contains itself through lists only. -/
def WellNested (abi : Abi) : Prop :=
  ∀ i < abi.arena.size, (abi.shape ⟨i⟩).wellNested = true

instance : Decidable abi.WellNested :=
  inferInstanceAs (Decidable (∀ i < abi.arena.size, (abi.shape ⟨i⟩).wellNested = true))

/-- What is not in the graph has no shape. -/
theorem shape_of_size_le {id : TypeId} (h : abi.arena.size ≤ id.index) :
    abi.shape id = .unresolved (.unknownType id) := by
  have hget : abi.arena.get? id = none := Array.getElem?_eq_none h
  rw [shape, unfold, lookup, hget]

/-- What can be looked up is in the graph. -/
theorem index_lt_of_shape {id : TypeId} (h : ∀ cause, abi.shape id ≠ .unresolved cause) :
    id.index < abi.arena.size :=
  Nat.lt_of_not_le fun hle => h _ (shape_of_size_le hle)

theorem WellNested.shape (h : abi.WellNested) (id : TypeId) : (abi.shape id).wellNested = true := by
  rcases Nat.lt_or_ge id.index abi.arena.size with hlt | hle
  · exact h id.index hlt
  · rw [shape_of_size_le hle]
    rfl

/-! ### Depth and answers -/

theorem deepens_loadItems {load load' : Shape → Nat → Except AbiError Value}
    (h : ∀ s p, Deepens (load s p) (load' s p)) :
    Deepens (abi.loadItems m load element start length)
      (abi.loadItems m load' element start length) := by
  refine (Deepens.refl _).bind fun layout => (Deepens.refl _).bind fun total => ?_
  exact (Deepens.refl _).bind fun _ => deepens_mapM fun i => h _ _

theorem deepens_loadWithin (s : Shape) (p d : Nat) :
    Deepens (abi.loadWithin m d s p) (abi.loadWithin m (d + 1) s p) := by
  induction d generalizing s p with
  | zero => exact .inl rfl
  | succ d ih =>
    cases s with
    | list element =>
      refine (Deepens.refl (loadPair m p)).bind fun pair => ?_
      exact (deepens_loadItems ih).bind fun _ => .refl _
    | product kind fields =>
      refine (Deepens.refl (Shape.fieldOffsets fields)).bind fun offsets => ?_
      exact (deepens_mapM fun entry => ih _ _).bind fun _ => .refl _
    | sum kind cases =>
      refine (Deepens.refl (Shape.sumLayout kind cases)).bind fun layout => ?_
      refine (Deepens.refl _).bind fun index => (Deepens.refl _).bind fun case => ?_
      obtain ⟨label, payload⟩ := case
      cases payload with
      | none => exact .refl _
      | some s => exact (ih _ _).bind fun _ => .refl _
    | leaf | string | unsupported | unresolved => exact .refl _

theorem deepens_readFields {read read' : Shape → WordReader → Except AbiError (Value × WordReader)}
    (h : ∀ s r, Deepens (read s r) (read' s r)) (fields : List (String × Shape)) (r : WordReader) :
    Deepens (readFields read fields r) (readFields read' fields r) := by
  induction fields generalizing r with
  | nil => exact .refl _
  | cons field fields ih =>
    exact (h field.2 r).bind fun first => (ih first.2).bind fun _ => .refl _

theorem deepens_readWithin (s : Shape) (r : WordReader) (d : Nat) :
    Deepens (abi.readWithin m d s r) (abi.readWithin m (d + 1) s r) := by
  induction d generalizing s r with
  | zero => exact .inl rfl
  | succ d ih =>
    cases s with
    | list element =>
      refine (Deepens.refl (r.next .i32)).bind fun start => (Deepens.refl _).bind fun length => ?_
      exact (deepens_loadItems fun s p => deepens_loadWithin s p d).bind fun _ => .refl _
    | product kind fields => exact (deepens_readFields ih fields r).bind fun _ => .refl _
    | sum kind cases =>
      refine (Deepens.refl (Shape.flattenCases cases)).bind fun slots => ?_
      refine (Deepens.refl _).bind fun index => (Deepens.refl _).bind fun words => ?_
      refine (Deepens.refl _).bind fun case => ?_
      obtain ⟨label, payload⟩ := case
      cases payload with
      | none => exact .refl _
      | some s =>
        refine (Deepens.refl _).bind fun kinds => (Deepens.refl _).bind fun own => ?_
        exact (ih _ _).bind fun _ => .refl _
    | leaf | string | unsupported | unresolved => exact .refl _

/-! ### Places inside others -/

/-- What is read: a value that the next words stand for, or a stored one. -/
inductive Place where
  | words (shape : Shape) (r : WordReader)
  | stored (shape : Shape) (pointer : Nat)

/-- The shape of what is read. -/
def Place.shape : Place → Shape
  | words s _ | stored s _ => s

/-- Reading at the place needs more than the given depth. -/
def Unfinished (abi : Abi) (m : Memory) (d : Nat) : Place → Prop
  | .words s r => Unanswered (abi.readWithin m d s r)
  | .stored s p => Unanswered (abi.loadWithin m d s p)

/-- A value can be loaded from the address, to some depth. -/
def Loads (abi : Abi) (m : Memory) (s : Shape) (p : Nat) : Prop :=
  ∃ d v, abi.loadWithin m d s p = .ok v

/-- A list item has the address, and all items before it can be loaded. -/
inductive ItemAt (abi : Abi) (m : Memory) (element : TypeId) (start length : Nat) : Nat → Prop where
  | mk {l : Layout} {total : Nat} {data : List UInt8} {before after : List Nat} {i : Nat}
    (layout : (abi.shape element).layout = .ok l)
    (fits : itemBytes m start l.size length = .ok total)
    (read : m.read start total = .ok data)
    (split : List.range length = before ++ i :: after)
    (loads : ∀ j ∈ before, abi.Loads m (abi.shape element) (start + j * l.size)) :
    ItemAt abi m element start length (start + i * l.size)

/-- Reading at the first place comes to the second: all that is read before can be read. -/
inductive Inside (abi : Abi) (m : Memory) : Place → Place → Prop where
  | wordsItem {element : TypeId} {r r₁ r₂ : WordReader} {start length p : Nat}
    (first : r.next .i32 = .ok (start, r₁)) (second : r₁.next .i32 = .ok (length, r₂))
    (item : abi.ItemAt m element start length p) :
    Inside abi m (.words (.list element) r) (.stored (abi.shape element) p)
  | wordsField {kind : ProductKind} {fields before after : List (String × Shape)} {label : String}
    {s : Shape} {r r' : WordReader} {d : Nat} {vs : List Value}
    (split : fields = before ++ (label, s) :: after)
    (reads : readFields (abi.readWithin m d) before r = .ok (vs, r')) :
    Inside abi m (.words (.product kind fields) r) (.words s r')
  | wordsPayload {kind : SumKind} {cases : List (String × Option Shape)}
    {slots kinds : List CoreType} {r r₁ r₂ : WordReader} {index : Nat} {words own : List Word}
    {label : String} {s : Shape}
    (joined : Shape.flattenCases cases = .ok slots) (first : r.next .i32 = .ok (index, r₁))
    (taken : r₁.take slots.length = .ok (words, r₂))
    (case : caseAt cases index = .ok (label, some s)) (flat : s.flatten = .ok kinds)
    (drained : drainSlots words kinds = .ok own) :
    Inside abi m (.words (.sum kind cases) r) (.words s (.ofList own))
  | item {element : TypeId} {p start length q : Nat} (pair : loadPair m p = .ok (start, length))
    (item : abi.ItemAt m element start length q) :
    Inside abi m (.stored (.list element) p) (.stored (abi.shape element) q)
  | field {kind : ProductKind} {fields : List (String × Shape)} {offsets : List Nat}
    {before after : List ((String × Shape) × Nat)} {label : String} {s : Shape} {p offset : Nat}
    (laid : Shape.fieldOffsets fields = .ok offsets)
    (split : fields.zip offsets = before ++ ((label, s), offset) :: after)
    (loads : ∀ entry ∈ before, abi.Loads m entry.1.2 (p + entry.2)) :
    Inside abi m (.stored (.product kind fields) p) (.stored s (p + offset))
  | payload {kind : SumKind} {cases : List (String × Option Shape)} {l : SumLayout}
    {p index : Nat} {label : String} {s : Shape} (laid : Shape.sumLayout kind cases = .ok l)
    (read : m.readNat p l.discriminantSize = .ok index)
    (case : caseAt cases index = .ok (label, some s)) :
    Inside abi m (.stored (.sum kind cases) p) (.stored s (p + l.payloadOffset))

/-- What is done at the place before anything inside it is come to needs no depth. -/
def Ready (abi : Abi) : Place → Prop
  | .words (.list element) _ | .stored (.list element) _ => ¬Unanswered (abi.shape element).layout
  | .words (.sum _ cases) _ => ¬Unanswered (Shape.flattenCases cases)
  | .stored (.product _ fields) _ => ¬Unanswered (Shape.fieldLayouts fields)
  | .stored (.sum _ cases) _ => ¬Unanswered (Shape.payloadLayouts cases)
  | .words (.unresolved cause) _ | .stored (.unresolved cause) _ => cause ≠ .unboundedNesting
  | _ => True

theorem Loads.or_unanswered (h : abi.Loads m s p) (d : Nat) :
    Unanswered (abi.loadWithin m d s p) ∨ ∃ v, abi.loadWithin m d s p = .ok v := by
  obtain ⟨d₀, v, hv⟩ := h
  have hd : ¬Unanswered (abi.loadWithin m d₀ s p) := hv ▸ not_unanswered_ok v
  exact (Deepens.eq_or (deepens_loadWithin s p) hd d).imp_right fun h => ⟨v, h.trans hv⟩

/-! ### One step of depth -/

theorem exists_item_of_unanswered (hready : ¬Unanswered (abi.shape element).layout)
    (h : Unanswered (abi.loadItems m (abi.loadWithin m d) element start length)) :
    ∃ p, abi.ItemAt m element start length p ∧
      Unanswered (abi.loadWithin m d (abi.shape element) p) := by
  obtain ⟨l, hl, h⟩ := h.rest hready
  obtain ⟨total, hfits, h⟩ := h.rest not_unanswered_itemBytes
  obtain ⟨data, hread, h⟩ := h.rest not_unanswered_read
  obtain ⟨before, i, after, hsplit, hbefore, hi⟩ := exists_of_unanswered_mapM h
  exact ⟨_, .mk hl hfits hread hsplit fun j hj => ⟨d, hbefore j hj⟩, hi⟩

theorem ItemAt.unanswered (h : abi.ItemAt m element start length p)
    (hp : Unanswered (abi.loadWithin m d (abi.shape element) p)) :
    Unanswered (abi.loadItems m (abi.loadWithin m d) element start length) := by
  cases h with
  | mk layout fits read split loads =>
    refine .after layout (.after fits (.after read ?_))
    rw [split]
    exact unanswered_mapM (fun j hj => (loads j hj).or_unanswered d) hp

theorem exists_field_of_unanswered
    {read : Shape → WordReader → Except AbiError (Value × WordReader)}
    {fields : List (String × Shape)} (h : Unanswered (readFields read fields r)) :
    ∃ before label s after vs r', fields = before ++ (label, s) :: after ∧
      readFields read before r = .ok (vs, r') ∧ Unanswered (read s r') := by
  induction fields generalizing r with
  | nil => cases h
  | cons field fields ih =>
    obtain ⟨label, s⟩ := field
    rcases unanswered_bind.1 h with h | ⟨⟨v, r₁⟩, hv, h⟩
    · exact ⟨[], label, s, fields, [], r, rfl, rfl, h⟩
    · obtain ⟨before, label', s', after, vs, r', rfl, hbefore, hs⟩ :=
        ih (h.first fun _ => not_unanswered_ok _)
      refine ⟨(label, s) :: before, label', s', after, v :: vs, r', rfl, ?_, hs⟩
      rw [readFields, hv]
      change (readFields read before r₁ >>= _) = _
      rw [hbefore]
      rfl

theorem unanswered_readFields {read : Shape → WordReader → Except AbiError (Value × WordReader)}
    {before after : List (String × Shape)} {label : String} {r' : WordReader}
    (hb : Unanswered (readFields read before r) ∨ ∃ vs, readFields read before r = .ok (vs, r'))
    (hs : Unanswered (read s r')) :
    Unanswered (readFields read (before ++ (label, s) :: after) r) := by
  induction before generalizing r with
  | nil =>
    rcases hb with hb | ⟨vs, hb⟩
    · cases hb
    · cases hb
      exact hs.bind
  | cons first before ih =>
    rw [List.cons_append]
    rcases hb with hb | ⟨vs, hb⟩
    · rcases unanswered_bind.1 hb with hb | ⟨next, hnext, hb⟩
      · exact hb.bind
      · exact .after hnext (ih (.inl (hb.first fun _ => not_unanswered_ok _))).bind
    · obtain ⟨next, hnext, hb⟩ := Except.bind_eq_ok.1 hb
      obtain ⟨rest, hrest, hb⟩ := Except.bind_eq_ok.1 hb
      cases hb
      exact .after hnext (ih (.inr ⟨_, hrest⟩)).bind

theorem exists_inside_of_words (hready : abi.Ready (.words s r))
    (h : Unanswered (abi.readWithin m (d + 1) s r)) :
    ∃ y, abi.Inside m (.words s r) y ∧ abi.Unfinished m d y := by
  cases s with
  | leaf l =>
    obtain ⟨next, -, h⟩ := h.rest not_unanswered_next
    exact absurd (h.first fun _ => not_unanswered_ok _) (not_unanswered_decode l next.1)
  | string =>
    obtain ⟨_, -, h⟩ := h.rest not_unanswered_next
    obtain ⟨_, -, h⟩ := h.rest not_unanswered_next
    exact absurd (h.first fun _ => not_unanswered_ok _) not_unanswered_liftString
  | list element =>
    obtain ⟨⟨start, r₁⟩, hstart, h⟩ := h.rest not_unanswered_next
    obtain ⟨⟨length, r₂⟩, hlength, h⟩ := h.rest not_unanswered_next
    obtain ⟨p, hp, h⟩ := exists_item_of_unanswered hready (h.first fun _ => not_unanswered_ok _)
    exact ⟨_, .wordsItem hstart hlength hp, h⟩
  | product kind fields =>
    obtain ⟨before, label, s, after, vs, r', hsplit, hbefore, h⟩ :=
      exists_field_of_unanswered (h.first fun _ => not_unanswered_ok _)
    exact ⟨_, .wordsField hsplit hbefore, h⟩
  | sum kind cases =>
    obtain ⟨slots, hslots, h⟩ := h.rest hready
    obtain ⟨⟨index, r₁⟩, hindex, h⟩ := h.rest not_unanswered_next
    obtain ⟨⟨words, r₂⟩, hwords, h⟩ := h.rest not_unanswered_take
    obtain ⟨⟨label, payload⟩, hcase, h⟩ := h.rest not_unanswered_caseAt
    cases payload with
    | none => exact absurd h (not_unanswered_ok _)
    | some s =>
      obtain ⟨kinds, hk⟩ := Shape.exists_flatten_case hslots (mem_of_caseAt hcase)
      obtain ⟨kinds, hkinds, h⟩ := h.rest (hk ▸ not_unanswered_ok _)
      obtain ⟨own, hown, h⟩ := h.rest (not_unanswered_drainSlots _ _)
      have h := h.first fun _ => not_unanswered_bind not_unanswered_finish fun _ _ =>
        not_unanswered_ok _
      exact ⟨_, .wordsPayload hslots hindex hwords hcase hkinds hown, h⟩
  | unsupported => cases h
  | unresolved cause => exact absurd (Except.error.inj h) hready

theorem exists_inside_of_stored (hready : abi.Ready (.stored s p))
    (h : Unanswered (abi.loadWithin m (d + 1) s p)) :
    ∃ y, abi.Inside m (.stored s p) y ∧ abi.Unfinished m d y := by
  cases s with
  | leaf l =>
    obtain ⟨n, -, h⟩ := h.rest not_unanswered_readNat
    exact absurd h (not_unanswered_decode l n)
  | string =>
    obtain ⟨_, -, h⟩ := h.rest not_unanswered_loadPair
    exact absurd (h.first fun _ => not_unanswered_ok _) not_unanswered_liftString
  | list element =>
    obtain ⟨⟨start, length⟩, hpair, h⟩ := h.rest not_unanswered_loadPair
    obtain ⟨q, hq, h⟩ := exists_item_of_unanswered hready (h.first fun _ => not_unanswered_ok _)
    exact ⟨_, .item hpair hq, h⟩
  | product kind fields =>
    obtain ⟨offsets, hoffsets, h⟩ := h.rest (not_unanswered_map hready)
    obtain ⟨before, ⟨⟨label, s⟩, offset⟩, after, hsplit, hbefore, h⟩ :=
      exists_of_unanswered_mapM (h.first fun _ => not_unanswered_ok _)
    exact ⟨_, .field hoffsets hsplit fun entry hm => ⟨d, hbefore entry hm⟩, h⟩
  | sum kind cases =>
    obtain ⟨l, hl, h⟩ := h.rest (not_unanswered_map hready)
    obtain ⟨index, hindex, h⟩ := h.rest not_unanswered_readNat
    obtain ⟨⟨label, payload⟩, hcase, h⟩ := h.rest not_unanswered_caseAt
    cases payload with
    | none => exact absurd h (not_unanswered_ok _)
    | some s => exact ⟨_, .payload hl hindex hcase, h.first fun _ => not_unanswered_ok _⟩
  | unsupported => cases h
  | unresolved cause => exact absurd (Except.error.inj h) hready

/-- If a depth is not enough for a place, one less is not enough for a place inside. -/
theorem Unfinished.step {x : Place} (hready : abi.Ready x) (h : abi.Unfinished m (d + 1) x) :
    ∃ y, abi.Inside m x y ∧ abi.Unfinished m d y := by
  cases x with
  | words s r => exact exists_inside_of_words hready h
  | stored s p => exact exists_inside_of_stored hready h

/-- If a depth is not enough for a place inside, one more is not enough for the place. -/
theorem Unfinished.of_inside {x y : Place} (hxy : abi.Inside m x y) (h : abi.Unfinished m d y) :
    abi.Unfinished m (d + 1) x := by
  cases hxy with
  | wordsItem first second item => exact .after first (.after second (item.unanswered h).bind)
  | @wordsField _ _ before _ _ _ r _ d₀ vs split reads =>
    subst split
    have hd : ¬Unanswered (readFields (abi.readWithin m d₀) before r) :=
      reads ▸ not_unanswered_ok (vs, _)
    have hdeep := Deepens.eq_or
      (fun d => deepens_readFields (fun s r => deepens_readWithin s r d) before r) hd d
    exact (unanswered_readFields (hdeep.imp_right fun hd => ⟨vs, hd.trans reads⟩) h).bind
  | wordsPayload joined first taken case flat drained =>
    exact .after joined <| .after first <| .after taken <| .after case <| .after flat <|
      .after drained <| .bind h
  | item pair item => exact .after pair (item.unanswered h).bind
  | field laid split loads =>
    refine .after laid (.bind ?_)
    rw [split]
    exact unanswered_mapM (fun entry hm => (loads entry hm).or_unanswered d) h
  | payload laid read case => exact .after laid (.after read (.after case (.bind h)))

/-! ### Places that are not inside themselves -/

open Relation

/-- List items of different types or addresses are not more than there are types and addresses. -/
theorem length_le_of_items {seen : List (TypeId × Nat)} {types addresses : Nat} (hn : seen.Nodup)
    (h : ∀ item ∈ seen, item.1.index < types ∧ item.2 < addresses) :
    seen.length ≤ types * addresses := by
  have hinj : Function.Injective fun item : TypeId × Nat => (item.1.index, item.2) := by
    rintro ⟨⟨i⟩, p⟩ ⟨⟨j⟩, q⟩ he
    cases he
    rfl
  have hsub : seen.map (fun item => (item.1.index, item.2)) ⊆
      List.range types ×ˢ List.range addresses := by
    intro pair hm
    obtain ⟨item, hitem, rfl⟩ := List.mem_map.1 hm
    obtain ⟨htype, haddress⟩ := h item hitem
    exact List.mem_product.2 ⟨List.mem_range.2 htype, List.mem_range.2 haddress⟩
  have hle := ((hn.map hinj).subperm hsub).length_le
  rwa [List.length_map, List.length_product, List.length_range, List.length_range] at hle

/-- List items are of a type in the graph, and do not start behind the memory. -/
theorem ItemAt.bounds (h : abi.ItemAt m element start length p) :
    element.index < abi.arena.size ∧ p < m.size + 1 := by
  cases h with
  | @mk l total data before after i layout fits read split loads =>
    obtain ⟨-, -, rfl⟩ := itemBytes_eq_ok.1 fits
    refine ⟨index_lt_of_shape fun cause he => ?_, ?_⟩
    · rw [he] at layout
      cases layout
    · have hi : i < length := by
        rw [← List.mem_range, split]
        exact List.mem_append_right _ List.mem_cons_self
      have hone : 1 ≤ max l.size 1 := Nat.le_max_right _ _
      have htotal : max l.size 1 * length ≠ 0 := Nat.mul_ne_zero (by omega) (by omega)
      have hroom := (Memory.read_eq_ok read htotal).1
      have hitem : i * l.size ≤ max l.size 1 * length := by
        rw [Nat.mul_comm]
        exact Nat.mul_le_mul (Nat.le_max_left _ _) (Nat.le_of_lt hi)
      omega

/-- What is inside a place is part of its type, or a list item. -/
theorem Inside.part_or_item {x y : Place} (h : abi.Inside m x y) :
    (y.shape.height < x.shape.height ∧ (x.shape.wellNested = true → y.shape.wellNested = true)) ∨
      ∃ element p, y = .stored (abi.shape element) p ∧ element.index < abi.arena.size ∧
        p < m.size + 1 := by
  have hfield {kind : ProductKind} {fields : List (String × Shape)} {label : String} {s : Shape}
      (hm : (label, s) ∈ fields) : s.height < (Shape.product kind fields).height ∧
        ((Shape.product kind fields).wellNested = true → s.wellNested = true) :=
    ⟨Nat.lt_succ_of_le (Shape.fieldsHeight_le.1 (Nat.le_refl _) (label, s) hm),
      fun hw => Shape.wellNested_of_field hw hm⟩
  have hcase {kind : SumKind} {cases : List (String × Option Shape)} {label : String} {s : Shape}
      (hm : (label, some s) ∈ cases) : s.height < (Shape.sum kind cases).height ∧
        ((Shape.sum kind cases).wellNested = true → s.wellNested = true) :=
    ⟨Nat.lt_succ_of_le (Shape.casesHeight_le.1 (Nat.le_refl _) label s hm),
      fun hw => Shape.wellNested_of_case hw hm⟩
  cases h with
  | wordsItem first second item => exact .inr ⟨_, _, rfl, item.bounds⟩
  | @wordsField kind fields before after label s r r' d vs split reads =>
    have hm : (label, s) ∈ fields := by
      rw [split]
      exact List.mem_append_right _ List.mem_cons_self
    exact .inl (hfield hm)
  | wordsPayload joined first taken case flat drained => exact .inl (hcase (mem_of_caseAt case))
  | item pair item => exact .inr ⟨_, _, rfl, item.bounds⟩
  | @field kind fields offsets before after label s p offset laid split loads =>
    have hm : ((label, s), offset) ∈ fields.zip offsets := by
      rw [split]
      exact List.mem_append_right _ List.mem_cons_self
    exact .inl (hfield (List.of_mem_zip hm).1)
  | payload laid read case => exact .inl (hcase (mem_of_caseAt case))

/-- Where types contain themselves through lists only, all that is come to is such a type. -/
theorem wellNested_of_reaches (hw : abi.WellNested) {root x : Place}
    (hroot : root.shape.wellNested = true) (h : ReflTransGen (abi.Inside m) root x) :
    x.shape.wellNested = true := by
  induction h with
  | refl => exact hroot
  | tail _ hxy ih =>
    rcases hxy.part_or_item with ⟨-, hpart⟩ | ⟨element, p, rfl, -⟩
    · exact hpart ih
    · exact hw.shape element

theorem ready_of_wellNested (hw : abi.WellNested) {x : Place} (hx : x.shape.wellNested = true) :
    abi.Ready x := by
  obtain ⟨s, _⟩ | ⟨s, _⟩ := x
  · cases s with
    | list element => exact (Shape.answered_of_wellNested _ (hw.shape element)).1
    | sum kind cases => exact (Shape.cases_answered cases hx).2
    | unresolved cause =>
      have hcause : cause ≠ .unboundedNesting := of_decide_eq_true hx
      exact hcause
    | _ => trivial
  · cases s with
    | list element => exact (Shape.answered_of_wellNested _ (hw.shape element)).1
    | product kind fields => exact (Shape.fields_answered fields hx).1
    | sum kind cases => exact (Shape.cases_answered cases hx).1
    | unresolved cause =>
      have hcause : cause ≠ .unboundedNesting := of_decide_eq_true hx
      exact hcause
    | _ => trivial

/-- If a depth is not enough for a place and another one is, it is because of what is inside. -/
theorem Unfinished.ready {x : Place} (h : abi.Unfinished m (d + 1) x)
    (hd : ¬abi.Unfinished m (d' + 1) x) : abi.Ready x := by
  obtain ⟨s, r⟩ | ⟨s, p⟩ := x
  · cases s with
    | list element =>
      obtain ⟨_, hstart, h⟩ := h.rest not_unanswered_next
      obtain ⟨_, hlength, -⟩ := h.rest not_unanswered_next
      exact fun hl => hd (.after hstart (.after hlength (.bind hl.bind)))
    | sum kind cases => exact fun hslots => hd hslots.bind
    | unresolved cause => exact fun hcause => hd (congrArg Except.error hcause)
    | _ => trivial
  · cases s with
    | list element =>
      obtain ⟨_, hpair, -⟩ := h.rest not_unanswered_loadPair
      exact fun hl => hd (.after hpair (.bind hl.bind))
    | product kind fields => exact fun hls => hd (Unanswered.map hls).bind
    | sum kind cases => exact fun hls => hd (Unanswered.map hls).bind
    | unresolved cause => exact fun hcause => hd (congrArg Except.error hcause)
    | _ => trivial

/-- The list items that the place is inside of are all different, so there is a step for each of
them and for each type that is nested between two of them, and no more. -/
theorem not_unfinished_of_acyclic {root x : Place}
    (hready : ∀ y d, ReflTransGen (abi.Inside m) root y → abi.Unfinished m (d + 1) y → abi.Ready y)
    (hacyclic : ∀ y, ReflTransGen (abi.Inside m) root y → ¬TransGen (abi.Inside m) y y)
    {seen : List (TypeId × Nat)} (hn : seen.Nodup)
    (hin : ∀ item ∈ seen, item.1.index < abi.arena.size ∧ item.2 < m.size + 1)
    (hseen : ∀ item ∈ seen, ReflTransGen (abi.Inside m) (.stored (abi.shape item.1) item.2) x)
    (hroot : ReflTransGen (abi.Inside m) root x)
    (hd : (abi.arena.size * (m.size + 1) - seen.length) * (abi.arena.size + 2) +
      x.shape.height ≤ d) :
    ¬abi.Unfinished m d x := by
  induction d generalizing seen x with
  | zero =>
    have := Shape.height_pos x.shape
    omega
  | succ d ih =>
    intro h
    obtain ⟨y, hxy, hy⟩ := h.step (hready x d hroot h)
    have hroot' := hroot.tail hxy
    rcases hxy.part_or_item with ⟨hheight, -⟩ | ⟨element, p, rfl, hitem⟩
    · exact ih hn hin (fun item hm => (hseen item hm).tail hxy) hroot' (by omega) hy
    · have hnew : (element, p) ∉ seen := fun hm =>
        hacyclic x hroot (TransGen.head' hxy (hseen (element, p) hm))
      have hn' := List.nodup_cons.2 ⟨hnew, hn⟩
      have hin' : ∀ item ∈ (element, p) :: seen,
          item.1.index < abi.arena.size ∧ item.2 < m.size + 1 :=
        List.forall_mem_cons.2 ⟨hitem, hin⟩
      have hseen' : ∀ item ∈ (element, p) :: seen, ReflTransGen (abi.Inside m)
          (.stored (abi.shape item.1) item.2) (.stored (abi.shape element) p) :=
        List.forall_mem_cons.2 ⟨.refl, fun item hm => (hseen item hm).tail hxy⟩
      refine ih hn' hin' hseen' hroot' ?_ hy
      have hlength := length_le_of_items hn' hin'
      have hheight := abi.height_shape element
      have hpos := Shape.height_pos x.shape
      rw [List.length_cons] at hlength ⊢
      rw [show abi.arena.size * (m.size + 1) - seen.length =
        abi.arena.size * (m.size + 1) - (seen.length + 1) + 1 by omega, Nat.succ_mul] at hd
      change _ + (abi.shape element).height ≤ d
      omega

/-! ### Places that are inside themselves -/

theorem unfinished_zero (x : Place) : abi.Unfinished m 0 x := by
  cases x <;> rfl

theorem Unfinished.of_transGen {x y : Place} (h : TransGen (abi.Inside m) x y)
    (hy : ∀ d' < d, abi.Unfinished m d' y) : abi.Unfinished m d x := by
  induction h using TransGen.head_induction_on generalizing d with
  | single hxy =>
    cases d with
    | zero => exact unfinished_zero _
    | succ d => exact (hy d (Nat.lt_succ_self d)).of_inside hxy
  | head hxz _ ih =>
    cases d with
    | zero => exact unfinished_zero _
    | succ d => exact (ih fun d' hd' => hy d' (Nat.lt_succ_of_lt hd')).of_inside hxz

/-- No depth is enough for a place that is inside itself. -/
theorem unfinished_of_cycle {x : Place} (h : TransGen (abi.Inside m) x x) (d : Nat) :
    abi.Unfinished m d x := by
  induction d using Nat.strongRecOn with
  | ind d ih => exact Unfinished.of_transGen h ih

theorem unfinished_of_reaches_cycle {root x : Place} (hroot : ReflTransGen (abi.Inside m) root x)
    (h : TransGen (abi.Inside m) x x) (d : Nat) : abi.Unfinished m d root := by
  rcases reflTransGen_iff_eq_or_transGen.1 hroot with rfl | hroot
  · exact unfinished_of_cycle h d
  · exact Unfinished.of_transGen hroot fun d' _ => unfinished_of_cycle h d'

/-! ### Lifting -/

/-- The value of a type that exactly the given words stand for, if it is nested less than `depth`
deep. -/
def liftWithin (abi : Abi) (m : Memory) (depth : Nat) (id : TypeId) (words : List Word) :
    Except AbiError Value := do
  let (v, rest) ← abi.readWithin m depth (abi.shape id) (.ofList words)
  rest.finish
  return v

variable {id : TypeId} {words : List Word}

theorem unanswered_liftWithin : Unanswered (abi.liftWithin m d id words) ↔
    abi.Unfinished m d (.words (abi.shape id) (.ofList words)) :=
  ⟨fun h => h.first fun _ => not_unanswered_bind not_unanswered_finish fun _ _ =>
    not_unanswered_ok _, fun h => .bind h⟩

theorem deepens_liftWithin (d : Nat) :
    Deepens (abi.liftWithin m d id words) (abi.liftWithin m (d + 1) id words) :=
  (deepens_readWithin _ _ d).bind fun _ => .refl _

/-- An answer at any depth needs no place that is inside itself. -/
theorem acyclic_of_answered (h : ¬Unanswered (abi.liftWithin m d id words)) (place : Place)
    (hroot : ReflTransGen (abi.Inside m) (.words (abi.shape id) (.ofList words)) place) :
    ¬TransGen (abi.Inside m) place place := fun hcycle =>
  h (unanswered_liftWithin.2 (unfinished_of_reaches_cycle hroot hcycle d))

/-- The bound on the depth is enough where no place is inside itself. -/
theorem answered_of_acyclic
    (hready : ∀ y d, ReflTransGen (abi.Inside m) (.words (abi.shape id) (.ofList words)) y →
      abi.Unfinished m (d + 1) y → abi.Ready y)
    (hacyclic : ∀ place, ReflTransGen (abi.Inside m) (.words (abi.shape id) (.ofList words)) place →
      ¬TransGen (abi.Inside m) place place) :
    ¬Unanswered (abi.liftFlat m id words) := fun h => by
  have hunfinished : abi.Unfinished m (abi.nestingBound m)
      (.words (abi.shape id) (.ofList words)) := unanswered_liftWithin.1 h
  refine not_unfinished_of_acyclic hready hacyclic List.nodup_nil
    (fun _ hm => absurd hm List.not_mem_nil) (fun _ hm => absurd hm List.not_mem_nil)
    .refl ?_ hunfinished
  have hheight := abi.height_shape id
  change (abi.arena.size * (m.size + 1)) * (abi.arena.size + 2) + (abi.shape id).height ≤
    (abi.arena.size * (m.size + 1) + 2) * (abi.arena.size + 2)
  rw [Nat.add_mul]
  omega

/-- Where one depth is enough, one is enough for each place that is come to. -/
theorem exists_finished {root x : Place} (h : ¬abi.Unfinished m d root)
    (hx : ReflTransGen (abi.Inside m) root x) : ∃ d, ¬abi.Unfinished m (d + 1) x := by
  induction hx with
  | refl =>
    cases d with
    | zero => exact absurd (unfinished_zero root) h
    | succ d => exact ⟨d, h⟩
  | @tail x y _ hxy ih =>
    obtain ⟨d, hd⟩ := ih
    cases d with
    | zero => exact absurd ((unfinished_zero y).of_inside hxy) hd
    | succ d => exact ⟨d, fun hy => hd (hy.of_inside hxy)⟩

/-- The bound on the depth of lifting changes no answer that there is at any depth. -/
theorem liftFlat_eq_liftWithin (h : ¬Unanswered (abi.liftWithin m d id words)) :
    abi.liftFlat m id words = abi.liftWithin m d id words := by
  have hfinished := mt unanswered_liftWithin.2 h
  refine (Deepens.eq_or deepens_liftWithin h _).resolve_left
    (answered_of_acyclic (fun y d hy hunfinished => ?_) (acyclic_of_answered h))
  obtain ⟨_, hd⟩ := exists_finished hfinished hy
  exact hunfinished.ready hd

/-- Where types contain themselves through lists only, lifting ends exactly if no place that it
comes to is inside itself, and the bound on its depth changes no answer that there is at any
depth. -/
theorem lift_ends_iff (hw : abi.WellNested) (m : Memory) (id : TypeId) (words : List Word) :
    (abi.liftFlat m id words ≠ .error .unboundedNesting ↔
      ∀ place, ReflTransGen (abi.Inside m) (.words (abi.shape id) (.ofList words)) place →
        ¬TransGen (abi.Inside m) place place) ∧
    ∀ depth, abi.liftWithin m depth id words ≠ .error .unboundedNesting →
      abi.liftFlat m id words = abi.liftWithin m depth id words := by
  have hroot : (Place.words (abi.shape id) (.ofList words)).shape.wellNested = true := hw.shape id
  have hready (y : Place) (d : Nat)
      (hy : ReflTransGen (abi.Inside m) (.words (abi.shape id) (.ofList words)) y)
      (_ : abi.Unfinished m (d + 1) y) : abi.Ready y :=
    ready_of_wellNested hw (wellNested_of_reaches hw hroot hy)
  exact ⟨⟨acyclic_of_answered, answered_of_acyclic hready⟩, fun _ => liftFlat_eq_liftWithin⟩

/-- Lists of such lists. -/
def nestedLists : Abi where
  arena := ⟨#[.list ⟨0⟩]⟩

/-- A list of two lists without items can be lifted, so no place in it is inside itself. -/
theorem lift_ends_iff_nestedLists :
    nestedLists.WellNested ∧
    nestedLists.liftFlat ⟨List.replicate 16 0, []⟩ ⟨0⟩ [.i32 0, .i32 2] ≠
      .error .unboundedNesting ∧
    ∀ place, ReflTransGen (nestedLists.Inside ⟨List.replicate 16 0, []⟩)
      (.words (nestedLists.shape ⟨0⟩) (.ofList [.i32 0, .i32 2])) place →
        ¬TransGen (nestedLists.Inside ⟨List.replicate 16 0, []⟩) place place := by
  have hw : nestedLists.WellNested := by decide
  have hlift : nestedLists.liftFlat ⟨List.replicate 16 0, []⟩ ⟨0⟩ [.i32 0, .i32 2] =
      .ok (.list [.list [], .list []]) := by
    cbv
  have hne : nestedLists.liftFlat ⟨List.replicate 16 0, []⟩ ⟨0⟩ [.i32 0, .i32 2] ≠
      .error .unboundedNesting := by
    rw [hlift]
    exact not_unanswered_ok _
  exact ⟨hw, hne, (lift_ends_iff hw _ _ _).1.1 hne⟩

/-- A list whose only item is stored where its own address and length are: the words say that there
is one item at address 0, and so does the memory there. The type is accepted, and no depth is
enough. -/
theorem lift_never_ends :
    nestedLists.flatten ⟨0⟩ = .ok [.i32, .i32] ∧
    ∀ depth, nestedLists.liftWithin ⟨[0, 0, 0, 0, 1, 0, 0, 0], []⟩ depth ⟨0⟩ [.i32 0, .i32 1] =
      .error .unboundedNesting := by
  refine ⟨rfl, fun depth => unanswered_liftWithin.2 ?_⟩
  have hrange : List.range 1 = [] ++ 0 :: [] := rfl
  have hitem : nestedLists.ItemAt ⟨[0, 0, 0, 0, 1, 0, 0, 0], []⟩ ⟨0⟩ 0 1 (0 + 0 * 8) :=
    .mk (l := { size := 8, align := 4 }) rfl rfl rfl hrange
      fun _ hm => absurd hm List.not_mem_nil
  have hself : nestedLists.Inside ⟨[0, 0, 0, 0, 1, 0, 0, 0], []⟩ (.stored (.list ⟨0⟩) 0)
      (.stored (.list ⟨0⟩) 0) := .item rfl hitem
  have hfirst : nestedLists.Inside ⟨[0, 0, 0, 0, 1, 0, 0, 0], []⟩
      (.words (.list ⟨0⟩) (.ofList [.i32 0, .i32 1])) (.stored (.list ⟨0⟩) 0) :=
    .wordsItem rfl rfl hitem
  exact unfinished_of_reaches_cycle (.single hfirst) (.single hself) depth

end Abi

end ComponentAbi
