import ComponentAbi.Proofs.Except
import ComponentAbi.Proofs.Resolve.Chain
import ComponentAbi.Shape.Layout

/-!
# Unfolded types

What is true of every shape because it was unfolded from a type graph: its nesting is bounded by the
size of the graph (`Abi.height_shape`), and its case indices fit the words that they are passed in,
if those of the nodes do (`Abi.indexable_shape`).
-/

namespace ComponentAbi

namespace TypeNode

/-- Case indices are passed in words of 32 bits, so a type has no more cases than there are such
words. -/
def CasesFit : TypeNode → Prop
  | variant _ cases => cases.length ≤ UInt32.size
  | enum _ cases => cases.length ≤ UInt32.size
  | _ => True

instance : DecidablePred CasesFit := fun node => by
  cases node <;> unfold CasesFit <;> infer_instance

end TypeNode

/-- All types of the graph have case indices that fit a word. -/
def TypeArena.CasesFit (a : TypeArena) : Prop :=
  ∀ node ∈ a.nodes.toList, node.CasesFit

instance (a : TypeArena) : Decidable a.CasesFit :=
  inferInstanceAs (Decidable (∀ node ∈ a.nodes.toList, node.CasesFit))

theorem SumKind.index_lt {kind : SumKind} {index : Nat}
    (h : index < 256 ^ kind.discriminantSize) : index < UInt32.size := by
  cases kind with
  | option => exact Nat.lt_of_lt_of_le h (Nat.le_of_ble_eq_true rfl)
  | result | variant => exact h

/-- Options and results have two cases, and variants no more than there are case indices. -/
def SumKind.Admits : SumKind → Nat → Prop
  | option, count | result, count => count = 2
  | variant _, count => count ≤ UInt32.size

theorem SumKind.Admits.index_lt {kind : SumKind} {count index : Nat} (h : kind.Admits count)
    (hi : index < count) : index < 256 ^ kind.discriminantSize := by
  cases kind with
  | option =>
    have : count = 2 := h
    change index < 256
    omega
  | result =>
    have : count = 2 := h
    change index < 4294967296
    omega
  | variant name =>
    have : count ≤ 4294967296 := h
    change index < 4294967296
    omega

namespace Shape

variable {inner : TypeId → Shape} {node : TypeNode} {d : Nat}

/-! ### Nesting -/

mutual

/-- How deeply types are nested in a shape, itself included. -/
def height : Shape → Nat
  | product _ fields => fieldsHeight fields + 1
  | sum _ cases => casesHeight cases + 1
  | leaf _ | string | list _ | unsupported .. | unresolved _ => 1
termination_by structural s => s

/-- The greatest height of some fields. -/
def fieldsHeight : List (String × Shape) → Nat
  | [] => 0
  | (_, s) :: rest => max s.height (fieldsHeight rest)
termination_by structural fields => fields

/-- The greatest height of some payloads. -/
def casesHeight : List (String × Option Shape) → Nat
  | [] => 0
  | (_, none) :: rest => casesHeight rest
  | (_, some s) :: rest => max s.height (casesHeight rest)
termination_by structural cases => cases

end

theorem height_pos (s : Shape) : 0 < s.height := by
  cases s <;> exact Nat.zero_lt_succ _

theorem fieldsHeight_le {fields : List (String × Shape)} :
    fieldsHeight fields ≤ d ↔ ∀ field ∈ fields, field.2.height ≤ d := by
  induction fields with
  | nil => simp [fieldsHeight]
  | cons field fields ih => rw [fieldsHeight, Nat.max_le, ih, List.forall_mem_cons]

theorem casesHeight_le {cases : List (String × Option Shape)} :
    casesHeight cases ≤ d ↔ ∀ label s, (label, some s) ∈ cases → s.height ≤ d := by
  induction cases with
  | nil => simp [casesHeight]
  | cons case cases ih =>
    obtain ⟨label, payload⟩ := case
    cases payload with
    | none => simp [casesHeight, ih]
    | some s =>
      rw [casesHeight, Nat.max_le, ih]
      constructor
      · rintro ⟨hs, hrest⟩ label' s' hm
        rcases List.mem_cons.1 hm with he | hm
        · cases he
          exact hs
        · exact hrest label' s' hm
      · exact fun h => ⟨h label s List.mem_cons_self,
          fun label' s' hm => h label' s' (List.mem_cons_of_mem _ hm)⟩

theorem height_ofNode (h : ∀ id, (inner id).height ≤ d) : (ofNode inner node).height ≤ d + 1 := by
  have hpos : 0 < d := Nat.lt_of_lt_of_le (height_pos _) (h ⟨0⟩)
  have hfields : ∀ fields : List (String × TypeId),
      fieldsHeight (fields.map fun field => (field.1, inner field.2)) ≤ d := by
    intro fields
    rw [fieldsHeight_le]
    intro field hm
    obtain ⟨f, -, rfl⟩ := List.mem_map.1 hm
    exact h _
  have hcases : ∀ cases : List (String × Option TypeId),
      casesHeight (cases.map fun case => (case.1, case.2.map inner)) ≤ d := by
    intro cases
    rw [casesHeight_le]
    intro label s hm
    obtain ⟨⟨label', c⟩, -, he⟩ := List.mem_map.1 hm
    cases c with
    | none => cases he
    | some id =>
      cases he
      exact h _
  cases node with
  | tuple elements =>
    have := hfields (elements.map fun e => ("", e))
    rw [List.map_map] at this
    exact Nat.succ_le_succ this
  | record name fields => exact Nat.succ_le_succ (hfields fields)
  | variant name cases => exact Nat.succ_le_succ (hcases cases)
  | option payload => exact Nat.succ_le_succ (hcases [("none", none), ("some", some payload)])
  | result ok err => exact Nat.succ_le_succ (hcases [("ok", ok), ("error", err)])
  | scalar | string | list | enum | flags | resource | borrow | function | interface | world
  | stream | future | reference => exact Nat.succ_le_succ (Nat.zero_le d)

/-! ### Case indices -/

mutual

/-- The sums in the shape have the cases of their kind, and case indices fit a word. -/
def Indexable : Shape → Prop
  | leaf (.enum cases) => cases.length ≤ UInt32.size
  | product _ fields => FieldsIndexable fields
  | sum kind cases => kind.Admits cases.length ∧ CasesIndexable cases
  | leaf _ | string | list _ | unsupported .. | unresolved _ => True
termination_by structural s => s

/-- The case indices of the fields fit. -/
def FieldsIndexable : List (String × Shape) → Prop
  | [] => True
  | (_, s) :: rest => s.Indexable ∧ FieldsIndexable rest
termination_by structural fields => fields

/-- The case indices of the payloads fit. -/
def CasesIndexable : List (String × Option Shape) → Prop
  | [] => True
  | (_, none) :: rest => CasesIndexable rest
  | (_, some s) :: rest => s.Indexable ∧ CasesIndexable rest
termination_by structural cases => cases

end

theorem fieldsIndexable_iff {fields : List (String × Shape)} :
    FieldsIndexable fields ↔ ∀ field ∈ fields, field.2.Indexable := by
  induction fields with
  | nil => simp [FieldsIndexable]
  | cons field fields ih => rw [FieldsIndexable, ih, List.forall_mem_cons]

theorem casesIndexable_iff {cases : List (String × Option Shape)} :
    CasesIndexable cases ↔ ∀ label s, (label, some s) ∈ cases → s.Indexable := by
  induction cases with
  | nil => simp [CasesIndexable]
  | cons case cases ih =>
    obtain ⟨label, payload⟩ := case
    cases payload with
    | none => simp [CasesIndexable, ih]
    | some s =>
      rw [CasesIndexable, ih]
      constructor
      · rintro ⟨hs, hrest⟩ label' s' hm
        rcases List.mem_cons.1 hm with he | hm
        · cases he
          exact hs
        · exact hrest label' s' hm
      · exact fun h => ⟨h label s List.mem_cons_self,
          fun label' s' hm => h label' s' (List.mem_cons_of_mem _ hm)⟩

theorem indexable_ofNode (h : ∀ id, (inner id).Indexable) (hn : node.CasesFit) :
    (ofNode inner node).Indexable := by
  have hfields : ∀ fields : List (String × TypeId),
      FieldsIndexable (fields.map fun field => (field.1, inner field.2)) := by
    intro fields
    rw [fieldsIndexable_iff]
    intro field hm
    obtain ⟨f, -, rfl⟩ := List.mem_map.1 hm
    exact h _
  have hcases : ∀ cases : List (String × Option TypeId),
      CasesIndexable (cases.map fun case => (case.1, case.2.map inner)) := by
    intro cases
    rw [casesIndexable_iff]
    intro label s hm
    obtain ⟨⟨label', c⟩, -, he⟩ := List.mem_map.1 hm
    cases c with
    | none => cases he
    | some id =>
      cases he
      exact h _
  cases node with
  | tuple elements =>
    have := hfields (elements.map fun e => ("", e))
    rw [List.map_map] at this
    exact this
  | record name fields => exact hfields fields
  | variant name cases =>
    refine ⟨?_, hcases cases⟩
    rw [SumKind.Admits, List.length_map]
    exact hn
  | enum name cases => exact hn
  | option payload => exact ⟨rfl, hcases [("none", none), ("some", some payload)]⟩
  | result ok err => exact ⟨rfl, hcases [("ok", ok), ("error", err)]⟩
  | scalar | string | list | flags | resource | borrow | function | interface | world | stream
  | future | reference => trivial

end Shape

namespace Abi

variable {abi : Abi} {id resolved : TypeId} {node : TypeNode}

theorem get?_of_lookup (h : abi.lookup id = .ok (resolved, node)) :
    abi.arena.get? resolved = some node := by
  unfold lookup at h
  split at h
  · cases h
  · split at h
    · cases h
    · rename_i store _
      cases hr : (store.resolve abi.arena id).mapError AbiError.unresolved with
      | error e => rw [hr] at h; cases h
      | ok target =>
        rw [hr] at h
        simp only [bind, Except.bind] at h
        split at h
        · rename_i hg
          cases h
          exact hg
        · cases h
  · rename_i hg
    cases h
    assumption

/-- What a type stands for has a shape of its own. -/
theorem isReference_of_lookup (h : abi.lookup id = .ok (resolved, node)) :
    node.isReference = false := by
  unfold lookup at h
  split at h
  · cases h
  · split at h
    · cases h
    · obtain ⟨target, hresolve, h⟩ := Except.bind_eq_ok.1 h
      obtain ⟨found, hfound, hshape⟩ :=
        PackageStore.exists_shape_of_resolve (Except.mapError_eq_ok.1 hresolve)
      simp only [hfound] at h
      cases h
      exact hshape
  · rename_i hreference hget
    cases h
    cases node <;> first | rfl | exact absurd rfl (hreference _)

/-- What a type stands for stands for itself. -/
theorem lookup_resolved (h : abi.lookup id = .ok (resolved, node)) :
    abi.lookup resolved = .ok (resolved, node) := by
  have hshape := isReference_of_lookup h
  rw [lookup, get?_of_lookup h]
  cases node with
  | reference => cases hshape
  | _ => rfl

theorem size_pos_of_lookup (h : abi.lookup id = .ok (resolved, node)) : 0 < abi.arena.size := by
  obtain ⟨hlt, -⟩ := Array.getElem?_eq_some_iff.1 (get?_of_lookup h)
  exact Nat.lt_of_le_of_lt (Nat.zero_le _) hlt

theorem exists_shape_of_lookup (hnode : abi.lookup id = .ok (resolved, node)) :
    ∃ inner, abi.shape id = Shape.ofNode inner node := by
  rw [shape, unfold, hnode]
  dsimp only
  rw [if_neg List.not_mem_nil]
  exact ⟨_, rfl⟩

theorem height_unfold (d : Nat) (path : List TypeId) (id : TypeId) :
    (abi.unfold d path id).height ≤ d + 1 := by
  induction d generalizing path id with
  | zero => exact Nat.le_refl _
  | succ d ih =>
    rw [unfold]
    split
    · exact Nat.succ_le_succ (Nat.zero_le _)
    · split
      · exact Nat.succ_le_succ (Nat.zero_le _)
      · exact Shape.height_ofNode fun id => ih _ id

/-- Shapes are not nested more deeply than there are types. -/
theorem height_shape (abi : Abi) (id : TypeId) : (abi.shape id).height ≤ abi.arena.size + 2 :=
  height_unfold _ _ _

theorem indexable_unfold (h : abi.arena.CasesFit) (d : Nat) (path : List TypeId) (id : TypeId) :
    (abi.unfold d path id).Indexable := by
  induction d generalizing path id with
  | zero => trivial
  | succ d ih =>
    rw [unfold]
    split
    · trivial
    · rename_i hl
      split
      · trivial
      · have hm := Array.mem_of_getElem? (get?_of_lookup hl)
        exact Shape.indexable_ofNode (fun id => ih _ id) (h _ hm.val)

theorem indexable_shape (h : abi.arena.CasesFit) (id : TypeId) : (abi.shape id).Indexable :=
  indexable_unfold h _ _ _

/-- Where there are no types, no type has a shape. -/
theorem size_pos_of_shape (h : ∀ cause, abi.shape id ≠ .unresolved cause) : 0 < abi.arena.size := by
  cases hl : abi.lookup id with
  | error cause =>
    refine absurd ?_ (h cause)
    rw [shape, unfold, hl]
  | ok r => exact size_pos_of_lookup hl

end Abi

end ComponentAbi
