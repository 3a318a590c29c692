import Mathlib
import ComponentAbi.Proofs.Marshal.Ownership
import ComponentAbi.Proofs.Marshal.Readings

/-!
# Owned handles are conserved

The handles that a call reports as moved are searched for in the values as the caller has them: in
the arguments before they are lowered, and in the results after they are lifted. What crosses is
read positionally, so both are compared with the handles of the native values in between.

* `ReadAs.handles_eq` : what is read has the handles of the native value;
* `Abi.moves_of_native` : these are found in the value that was lowered;
* `Abi.readingsMove` : they are found in what is read, unless a record has fields of one name and
  different types (`Abi.Unambiguous`), as the search knows fields by their names;
* `Abi.handles_conserved` : what a call reports as moved.
-/

namespace ComponentAbi

theorem Except.forall₂_of_mapM {ε α β : Type} {f : α → Except ε β} {xs : List α} {ys : List β}
    (h : xs.mapM f = .ok ys) : List.Forall₂ (fun x y => f x = .ok y) xs ys := by
  induction xs generalizing ys with
  | nil =>
    cases h
    exact .nil
  | cons x xs ih =>
    obtain ⟨y, ys, hy, hys, rfl⟩ := mapM_cons_eq_ok.1 h
    exact .cons hy (ih hys)

section

variable {abi : Abi} {d : Nat} {s : Shape} {v w : Value} {n : Native}

/-! ### Handles of what is read -/

theorem forall₂_of_zip {α β γ : Type} {P : α → γ → Prop} {xs : List α} {ys : List β} {zs : List γ}
    (hl : xs.length = ys.length)
    (h : List.Forall₂ (fun entry z => P entry.1 z) (xs.zip ys) zs) : List.Forall₂ P xs zs := by
  have hfst := List.forall₂_map_left_iff (f := Prod.fst) (R := P) |>.2 h
  rwa [List.map_fst_zip (Nat.le_of_eq hl)] at hfst

theorem Abi.native_of_product {kind : ProductKind} {fields : List (String × Shape)}
    {ns : List Native} (h : abi.nativeWithin (d + 1) (.product kind fields) v = .ok (.product ns)) :
    List.Forall₂ (fun field n => ∃ v', abi.nativeWithin d field.2 v' = .ok n) fields ns := by
  cases kind with
  | record name =>
    obtain ⟨given, ns, rfl, hn, hns⟩ := native_of_record h
    cases hn
    refine (Except.forall₂_of_mapM hns).imp fun field n hn => ?_
    obtain ⟨v', -, hn⟩ := Except.bind_eq_ok.1 hn
    exact ⟨v', hn⟩
  | tuple =>
    obtain ⟨items, ns, rfl, hn, hlen, hns⟩ := native_of_tuple h
    cases hn
    exact forall₂_of_zip hlen ((Except.forall₂_of_mapM hns).imp fun entry n hn => ⟨entry.2, hn⟩)

theorem label_of_case {cases : List (String × Option Shape)} {index : Nat} {label : String}
    {shape : Option Shape} (h : cases[index]? = some (label, shape)) :
    (cases.map (·.1))[index]? = some label := by
  rw [List.getElem?_map, h]
  rfl

/-- What a native value is read as has its handles, in their order. -/
theorem ReadAs.handles_eq (hc : abi.arena.CasesFit) (hs : s.Indexable)
    (hn : abi.nativeWithin d s v = .ok n) (h : ReadAs abi s n w) : w.handles = n.handles := by
  -- On the depth of the value that was lowered, and not on the reading alone: the native value has
  -- to be that of a value, as an empty option has no place for a payload.
  induction d generalizing s v n w with
  | zero => cases hn
  | succ d ih =>
    cases h with
    | leaf holds => exact Leaf.handles_value holds
    | text text => rfl
    | @list element seen unseen values row handles =>
      obtain ⟨items, ns, rfl, he, hns⟩ := Abi.native_of_list hn
      cases he
      have hitems := row.of_replicate (P := fun w n => w.handles = n.handles) fun n hn w hw => by
        obtain ⟨v', -, hv'⟩ := Except.exists_of_mem_mapM hns (List.mem_append_left _ hn)
        exact ih (Abi.indexable_shape hc element) hv' hw
      rw [Value.handles, Native.handles, Value.handlesOfAll_eq, Native.handlesOfAll_eq,
        flatMap_handles_eq hitems, List.flatMap_append, List.flatMap_eq_nil_iff.2 handles,
        List.append_nil]
    | @product kind fields parts values row =>
      have hns := List.forall₂_iff_zip.1 (Abi.native_of_product hn)
      have hparts := row.of_map.forall₂ (P := fun w n => w.handles = n.handles)
        fun field n hm w hw => by
          obtain ⟨v', hv'⟩ := hns.2 hm
          exact ih (Shape.fieldsIndexable_iff.1 hs field (List.of_mem_zip hm).1) hv' hw
      have hlen : values.length = (fields.map (·.1)).length := by
        rw [row.length_eq, List.length_map, List.length_map]
      rw [kind.handles_build hlen, Native.handles, Native.handlesOfAll_eq,
        flatMap_handles_eq hparts]
    | @bare kind cases index label case =>
      cases kind with
      | option => cases index <;> rfl
      | result => cases index <;> rfl
      | variant name => rfl
    | @payload kind cases index label shape n w' case read =>
      cases Abi.native_of_sum hn with
      | payload case_of case' native =>
        cases case.symm.trans case'
        have hbuild : kind.build index label (some w') = v.withPayload (some w') :=
          SumKind.build_caseOf case_of (label_of_case case) rfl
        rw [hbuild, (SumKind.inCase case_of).handles_withPayload]
        change w'.handles = n.handles
        exact ih (Shape.casesIndexable_iff.1 hs.2 _ _ (List.mem_of_getElem? case)) native read

end

namespace TypeNode

/-- Values of the type have no parts, and are no owned handles. -/
def isPlain : TypeNode → Bool
  | list _ | tuple _ | option _ | result .. | record .. | variant .. | resource _ => false
  | _ => true

/-- The names of the fields of a record. -/
def fieldLabels : TypeNode → List String
  | record _ fields => fields.map (·.1)
  | _ => []

end TypeNode

/-- No record has two fields of one name. -/
def TypeArena.LabelsDistinct (a : TypeArena) : Prop :=
  ∀ node ∈ a.nodes.toList, node.fieldLabels.Nodup

instance (a : TypeArena) : Decidable a.LabelsDistinct :=
  inferInstanceAs (Decidable (∀ node ∈ a.nodes.toList, node.fieldLabels.Nodup))

namespace Abi

variable {abi : Abi} {id resolved : TypeId} {node : TypeNode}

/-! ### Records whose fields agree -/

/-- Fields of one name stand for one type. -/
def FieldsAgree (abi : Abi) : TypeNode → Prop
  | .record _ fields => ∀ f ∈ fields, ∀ g ∈ fields, f.1 = g.1 → abi.lookup f.2 = abi.lookup g.2
  | _ => True

/-- The node is the type, or one that values of the type are made of. -/
inductive MadeOf (abi : Abi) : TypeId → TypeNode → Prop where
  | itself {id resolved : TypeId} {node : TypeNode} (found : abi.lookup id = .ok (resolved, node)) :
    MadeOf abi id node
  | part {id resolved part : TypeId} {node inner : TypeNode}
    (found : abi.lookup id = .ok (resolved, node)) (mem : part ∈ node.components)
    (made : MadeOf abi part inner) : MadeOf abi id inner

/-- In the records that values of the type are made of, fields of one name stand for one type. -/
def Unambiguous (abi : Abi) (id : TypeId) : Prop :=
  ∀ node, abi.MadeOf id node → abi.FieldsAgree node

theorem Unambiguous.part {part : TypeId} (h : abi.Unambiguous id)
    (hl : abi.lookup id = .ok (resolved, node)) (hm : part ∈ node.components) :
    abi.Unambiguous part :=
  fun inner hmade => h inner (.part hl hm hmade)

theorem mem_nodes_of_madeOf (h : abi.MadeOf id node) : node ∈ abi.arena.nodes.toList := by
  induction h with
  | itself found => exact (Array.mem_of_getElem? (get?_of_lookup found)).val
  | part _ _ _ ih => exact ih

/-- It is enough that no record has two fields of one name. -/
theorem unambiguous_of_distinct (h : abi.arena.LabelsDistinct) (id : TypeId) :
    abi.Unambiguous id := by
  intro node hmade
  have hnode : node.fieldLabels.Nodup := h node (mem_nodes_of_madeOf hmade)
  cases node with
  | record name fields =>
    intro f hf g hg he
    rw [List.inj_on_of_nodup_map hnode hf hg he]
  | _ => trivial

/-! ### What the search finds -/

/-- Searching the value for owned handles finds the given ones, if it ends. -/
def Moves (abi : Abi) (id : TypeId) (w : Value) (handles : List UInt32) : Prop :=
  ∀ fuel hs, abi.ownedHandlesWithin fuel id w = .ok hs → hs = handles

/-- Searching each value finds the handles of its native value. -/
def MovesRow (abi : Abi) (ids : List TypeId) (values : List Value) (ns : List Native) : Prop :=
  List.Forall₂ (fun entry n => abi.Moves entry.1 entry.2 n.handles) (ids.zip values) ns

variable {w : Value} {ns : List Native}

theorem Moves.congr {id' : TypeId} {handles : List UInt32} (h : abi.Moves id w handles)
    (hl : abi.lookup id = abi.lookup id') : abi.Moves id' w handles := by
  intro fuel hs hfound
  refine h fuel hs ?_
  cases fuel with
  | zero => cases hfound
  | succ fuel => rwa [ownedHandlesWithin, hl]

theorem flatten_eq_of_forall₂ {α : Type} {f : α → Except AbiError (List UInt32)} {xs : List α}
    {hs : List UInt32} (h : List.Forall₂ (fun x n => ∀ hs, f x = .ok hs → hs = n.handles) xs ns)
    (hfound : (do return (← xs.mapM f).flatten : Except AbiError (List UInt32)) = .ok hs) :
    hs = Native.handlesOfAll ns := by
  obtain ⟨hss, hmap, he⟩ := Except.bind_eq_ok.1 hfound
  cases he
  clear hfound
  induction h generalizing hss with
  | nil =>
    cases hmap
    rfl
  | cons head _ ih =>
    obtain ⟨first, rest, hfirst, hrest, rfl⟩ := Except.mapM_cons_eq_ok.1 hmap
    rw [List.flatten_cons, head first hfirst, ih rest hrest, Native.handlesOfAll]

theorem moves_of_succ {handles : List UInt32}
    (h : ∀ fuel hs, abi.ownedHandlesWithin (fuel + 1) id w = .ok hs → hs = handles) :
    abi.Moves id w handles := by
  intro fuel hs hfound
  cases fuel with
  | zero => cases hfound
  | succ fuel => exact h fuel hs hfound

theorem moves_plain (hl : abi.lookup id = .ok (resolved, node)) (hp : node.isPlain) (w : Value) :
    abi.Moves id w [] := by
  refine moves_of_succ fun fuel hs hfound => ?_
  rw [ownedHandlesWithin, hl] at hfound
  cases node with
  | list | tuple | option | result | record | variant | resource => cases hp
  | _ => cases w <;> cases hfound <;> rfl

theorem moves_resource {r : ResourceType} (hl : abi.lookup id = .ok (resolved, .resource r))
    (handle : UInt32) : abi.Moves id (.own handle) [handle] := by
  refine moves_of_succ fun fuel hs hfound => ?_
  rw [ownedHandlesWithin, hl] at hfound
  cases hfound
  rfl

theorem moves_list {element : TypeId} {items : List Value}
    (hl : abi.lookup id = .ok (resolved, .list element))
    (h : List.Forall₂ (fun w n => abi.Moves element w n.handles) items ns) :
    abi.Moves id (.list items) (Native.handlesOfAll ns) := by
  refine moves_of_succ fun fuel hs hfound => ?_
  rw [ownedHandlesWithin, hl] at hfound
  exact flatten_eq_of_forall₂ (h.imp fun w n hw => hw fuel) hfound

theorem moves_tuple {elements : List TypeId} {items : List Value}
    (hl : abi.lookup id = .ok (resolved, .tuple elements))
    (h : abi.MovesRow elements items ns) :
    abi.Moves id (.tuple items) (Native.handlesOfAll ns) := by
  refine moves_of_succ fun fuel hs hfound => ?_
  rw [ownedHandlesWithin, hl] at hfound
  exact flatten_eq_of_forall₂ (h.imp fun entry n hw => hw fuel) hfound

theorem moves_record {name : TypeName} {fields : List (String × TypeId)}
    {given : List (String × Value)} (hl : abi.lookup id = .ok (resolved, .record name fields))
    (h : List.Forall₂ (fun field n => ∃ w, given.lookup field.1 = some w ∧
      abi.Moves field.2 w n.handles) fields ns) :
    abi.Moves id (.record given) (Native.handlesOfAll ns) := by
  refine moves_of_succ fun fuel hs hfound => ?_
  rw [ownedHandlesWithin, hl] at hfound
  refine flatten_eq_of_forall₂ (h.imp ?_) hfound
  rintro field n ⟨w, hlookup, hw⟩ hs hfound
  simp only [hlookup] at hfound
  exact hw fuel hs hfound

section Sums

variable {kind : SumKind} {cases : List (String × Option TypeId)} {index : Nat}

theorem mem_components_of_case {label : String} {part : TypeId}
    (hk : node.sum? = some (kind, cases)) (h : cases[index]? = some (label, some part)) :
    part ∈ node.components := by
  have hm : part ∈ cases.filterMap (·.2) :=
    List.mem_filterMap.2 ⟨_, List.mem_of_getElem? h, rfl⟩
  cases node with
  | option | variant =>
    cases hk
    exact hm
  | result ok err =>
    cases hk
    cases ok <;> cases err <;> exact hm
  | _ => cases hk

theorem moves_bare (hl : abi.lookup id = .ok (resolved, node)) (hk : node.sum? = some (kind, cases))
    (hw : kind.caseOf (cases.map (·.1)) w = .ok (index, none)) : abi.Moves id w [] := by
  refine moves_of_succ fun fuel hs hfound => ?_
  rw [ownedHandlesWithin_sum hl hk hw, ownedHandlesOfPayload_none] at hfound
  cases hfound
  rfl

theorem moves_payload {label : String} {part : TypeId} {w' : Value} {handles : List UInt32}
    (hl : abi.lookup id = .ok (resolved, node)) (hk : node.sum? = some (kind, cases))
    (hw : kind.caseOf (cases.map (·.1)) w = .ok (index, some w'))
    (hcase : cases[index]? = some (label, some part)) (h : abi.Moves part w' handles) :
    abi.Moves id w handles := by
  refine moves_of_succ fun fuel hs hfound => ?_
  rw [ownedHandlesWithin_sum hl hk hw, hcase] at hfound
  exact h fuel hs hfound

end Sums

/-! ### What is found in values that cross -/

section Crossing

variable {d k : Nat} {path : List TypeId} {v : Value} {n : Native}

theorem unfold_congr {id' : TypeId} (h : abi.lookup id = abi.lookup id') :
    abi.unfold k path id = abi.unfold k path id' := by
  cases k with
  | zero => rfl
  | succ k => rw [unfold, unfold, h]

theorem handles_of_atom {l : Leaf} {a : Atom} (h : l.atom v = .ok a) (hl : l ≠ .own) :
    a.handles = [] := by
  cases Leaf.readsAs_of_atom h with
  | own => exact absurd rfl hl
  | _ => rfl

theorem handles_of_plain {inner : TypeId → Shape} (hp : node.isPlain)
    (h : abi.nativeWithin (d + 1) (Shape.ofNode inner node) v = .ok n) : n.handles = [] := by
  have hleaf (l : Leaf) (hl : l ≠ .own) (h : abi.nativeWithin (d + 1) (.leaf l) v = .ok n) :
      n.handles = [] := by
    obtain ⟨a, ha, rfl⟩ := Except.map_eq_ok.1 h
    exact handles_of_atom ha hl
  cases node with
  | list | tuple | option | result | record | variant | resource => cases hp
  | scalar s => exact hleaf (.scalar s) nofun h
  | enum name cases => exact hleaf (.enum cases) nofun h
  | flags name labels => exact hleaf (.flags name.toText labels) nofun h
  | borrow r => exact hleaf .borrow nofun h
  | string =>
    cases v with
    | string text =>
      cases h
      rfl
    | _ => cases h
  | function | interface | world | stream | future | reference => cases v <;> cases h

/-- A case that was put together again is the case it was. -/
theorem caseOf_build {kind : SumKind} {labels : List String} {index : Nat} {label : String}
    {payload payload' : Option Value} (h : kind.caseOf labels v = .ok (index, payload))
    (hl : labels[index]? = some label) (hp : payload'.isSome = payload.isSome) :
    kind.caseOf labels (kind.build index label payload') = .ok (index, payload') := by
  obtain ⟨index', hw, hsame⟩ := caseOf_withPayload h payload'
  cases hsame hp
  rw [SumKind.build_caseOf h hl hp, hw]

theorem native_of_resource (h : abi.nativeWithin (d + 1) (.leaf .own) v = .ok n) :
    ∃ handle, v = .own handle ∧ n = .atom (.own handle) := by
  obtain ⟨a, ha, rfl⟩ := Except.map_eq_ok.1 h
  cases Leaf.readsAs_of_atom ha with
  | own handle => exact ⟨handle, rfl, rfl⟩

/-- In a value that is lowered are found the handles of its native value. -/
theorem moves_of_native (h : abi.nativeWithin d (abi.unfold k path id) v = .ok n) :
    abi.Moves id v n.handles := by
  -- Along the reading of the value, whatever fuel the search is given.
  induction d generalizing k path id v n with
  | zero => cases h
  | succ d ih =>
    obtain ⟨k', path', resolved, node, hl, hu⟩ := unfold_of_native h
    rw [hu] at h
    cases hk : node.sum? with
    | some sum =>
      obtain ⟨kind, cases⟩ := sum
      rw [ofNode_sum hk] at h
      cases native_of_sum h with
      | bare case_of =>
        rw [List.map_map] at case_of
        exact moves_bare hl hk case_of
      | @payload _ _ _ _ n case_of case native =>
        rw [List.map_map] at case_of
        obtain ⟨part, hcase, rfl⟩ := part_of_case case
        have hpart : abi.Moves part _ n.handles := ih native
        exact moves_payload hl hk case_of hcase hpart
    | none =>
      cases node with
      | list element =>
        obtain ⟨items, ns, rfl, rfl, hns⟩ := native_of_list h
        exact moves_list hl ((Except.forall₂_of_mapM hns).imp fun v n hn => ih hn)
      | tuple elements =>
        obtain ⟨items, ns, rfl, rfl, -, hns⟩ := native_of_tuple h
        rw [List.zip_map_left, List.mapM_map] at hns
        exact moves_tuple hl ((Except.forall₂_of_mapM hns).imp fun entry n hn => ih hn)
      | record name fields =>
        obtain ⟨given, ns, rfl, rfl, hns⟩ := native_of_record h
        rw [List.mapM_map] at hns
        refine moves_record hl ((Except.forall₂_of_mapM hns).imp fun field n hn => ?_)
        obtain ⟨v', hv', hn⟩ := Except.bind_eq_ok.1 hn
        exact ⟨v', recordField_eq_ok.1 hv', ih hn⟩
      | resource r =>
        obtain ⟨handle, rfl, rfl⟩ := native_of_resource h
        exact moves_resource hl handle
      | option | result | variant => cases hk
      | _ =>
        rw [handles_of_plain rfl h]
        exact moves_plain hl rfl v

variable (abi d) in
/-- In what is read of a value that is nested less than `d` deep are found the handles of its native
value, if fields of one name stand for one type. -/
def ReadingsMove : Prop :=
  ∀ k path id v n w, abi.Unambiguous id → abi.nativeWithin d (abi.unfold k path id) v = .ok n →
    ReadAs abi (abi.unfold k path id) n w → abi.Moves id w n.handles

theorem ReadingsMove.sum {kind : SumKind} {cases : List (String × Option TypeId)}
    (ih : abi.ReadingsMove d) (hu : abi.Unambiguous id) (hl : abi.lookup id = .ok (resolved, node))
    (hk : node.sum? = some (kind, cases))
    (h : abi.nativeWithin (d + 1) (Shape.ofNode (abi.unfold k path) node) v = .ok n)
    (hr : ReadAs abi (Shape.ofNode (abi.unfold k path) node) n w) :
    abi.Moves id w n.handles := by
  rw [ofNode_sum hk] at h hr
  cases native_of_sum h with
  | @bare index case_of =>
    cases hr with
    | @bare _ _ _ label case =>
      have hw : kind.caseOf _ (kind.build index label none) = .ok (index, none) :=
        caseOf_build case_of (label_of_case case) rfl
      rw [List.map_map] at hw
      exact moves_bare hl hk hw
  | @payload index label shape v' n case_of case native =>
    cases hr with
    | @payload _ _ _ _ _ _ w' case' read =>
      cases case.symm.trans case'
      have hw : kind.caseOf _ (kind.build index label (some w')) = .ok (index, some w') :=
        caseOf_build case_of (label_of_case case) rfl
      rw [List.map_map] at hw
      obtain ⟨part, hcase, rfl⟩ := part_of_case case
      have hpart : abi.Moves part w' n.handles :=
        ih _ _ _ _ _ _ (hu.part hl (mem_components_of_case hk hcase)) native read
      exact moves_payload hl hk hw hcase hpart

theorem ReadingsMove.list {element : TypeId} (ih : abi.ReadingsMove d) (hu : abi.Unambiguous id)
    (hl : abi.lookup id = .ok (resolved, .list element))
    (h : abi.nativeWithin (d + 1) (.list element) v = .ok n)
    (hr : ReadAs abi (.list element) n w) : abi.Moves id w n.handles := by
  obtain ⟨items, ns, rfl, rfl, hns⟩ := native_of_list h
  cases hr with
  | @list _ seen unseen values row handles =>
    have hseen := moves_list hl (row.of_replicate fun n hn w hw => by
      obtain ⟨v', -, hv'⟩ := Except.exists_of_mem_mapM hns (List.mem_append_left _ hn)
      exact ih _ _ _ _ _ _ (hu.part hl (List.mem_singleton_self _)) hv' hw)
    -- The items that were not read have no handles.
    rwa [Native.handlesOfAll_eq, ← List.append_nil (seen.flatMap _),
      ← List.flatMap_eq_nil_iff.2 handles, ← List.flatMap_append, ← Native.handlesOfAll_eq] at hseen

/-- The parts of a product whose labels and types are read off a list. -/
theorem ReadingsMove.parts {α : Type} {xs : List α} {label : α → String} {part : α → TypeId}
    {kind : ProductKind} {values : List Value} (ih : abi.ReadingsMove d)
    (hu : ∀ x ∈ xs, abi.Unambiguous (part x))
    (h : abi.nativeWithin (d + 1)
      (.product kind (xs.map fun x => (label x, abi.unfold k path (part x)))) v = .ok (.product ns))
    (row : Row (ReadAs abi) ((xs.map fun x => (label x, abi.unfold k path (part x))).map (·.2))
      ns values) :
    Row (fun x n w => abi.Moves (part x) w n.handles) xs ns values := by
  have hns := List.forall₂_iff_zip.1 (List.forall₂_map_left_iff.1 (native_of_product h))
  refine row.of_map.of_map.imp fun x n hm w hw => ?_
  obtain ⟨v', hv'⟩ := hns.2 hm
  exact ih _ _ _ _ _ _ (hu x (List.of_mem_zip hm).1) hv' hw

theorem ReadingsMove.tuple {elements : List TypeId} (ih : abi.ReadingsMove d)
    (hu : abi.Unambiguous id) (hl : abi.lookup id = .ok (resolved, .tuple elements))
    (h : abi.nativeWithin (d + 1) (Shape.ofNode (abi.unfold k path) (.tuple elements)) v = .ok n)
    (hr : ReadAs abi (Shape.ofNode (abi.unfold k path) (.tuple elements)) n w) :
    abi.Moves id w n.handles := by
  cases hr with
  | product row =>
    have hrow : Row (fun id n w => abi.Moves id w n.handles) elements _ _ :=
      ih.parts (fun part hm => hu.part hl hm) h row
    exact moves_tuple hl hrow.zip

/-- The field that is found under a name holds what any other of that name does: both were read from
the one value supplied under it. -/
theorem ReadingsMove.record {name : TypeName} {fields : List (String × TypeId)}
    (ih : abi.ReadingsMove d) (hu : abi.Unambiguous id)
    (hl : abi.lookup id = .ok (resolved, .record name fields))
    (h : abi.nativeWithin (d + 1) (Shape.ofNode (abi.unfold k path) (.record name fields)) v =
      .ok n)
    (hr : ReadAs abi (Shape.ofNode (abi.unfold k path) (.record name fields)) n w) :
    abi.Moves id w n.handles := by
  cases hr with
  | @product _ _ ns values row =>
    have hrow : Row (fun field n w => abi.Moves field.2 w n.handles) fields ns values :=
      ih.parts (fun field hm => hu.part hl (List.mem_map_of_mem hm)) h row
    obtain ⟨given, ns, rfl, he, hns⟩ := native_of_record h
    cases he
    rw [List.mapM_map] at hns
    have hns := List.forall₂_iff_zip.1 (Except.forall₂_of_mapM hns)
    refine moves_record hl (List.forall₂_iff_zip.2 ⟨hns.1, fun {field n} hm => ?_⟩)
    have hfield := (List.of_mem_zip hm).1
    obtain ⟨field', n', w, hm', hlabel, hlookup, hw⟩ := hrow.lookup (List.mem_map_of_mem hfield)
    have hagree : abi.lookup field'.2 = abi.lookup field.2 :=
      hu _ (.itself hl) field' (List.of_mem_zip hm').1 field hfield hlabel
    have hinner : abi.unfold k path field'.2 = abi.unfold k path field.2 := unfold_congr hagree
    obtain ⟨v', hv', hn⟩ := Except.bind_eq_ok.1 (hns.2 hm)
    obtain ⟨v'', hv'', hn'⟩ := Except.bind_eq_ok.1 (hns.2 hm')
    rw [hlabel] at hv''
    cases hv'.symm.trans hv''
    change abi.nativeWithin d (abi.unfold k path field'.2) v' = .ok n' at hn'
    rw [hinner] at hn'
    cases hn.symm.trans hn'
    rw [List.map_map]
    exact ⟨w, hlookup, hw.congr hagree⟩

theorem readingsMove (abi : Abi) (d : Nat) : abi.ReadingsMove d := by
  induction d with
  | zero =>
    intro k path id v n w _ h
    cases h
  | succ d ih =>
    intro k path id v n w hu h hr
    obtain ⟨k', path', resolved, node, hl, hshape⟩ := unfold_of_native h
    rw [hshape] at h hr
    cases hk : node.sum? with
    | some sum => exact ih.sum hu hl hk h hr
    | none =>
      cases node with
      | list element => exact ih.list hu hl h hr
      | tuple elements => exact ih.tuple hu hl h hr
      | record name fields => exact ih.record hu hl h hr
      | resource r =>
        obtain ⟨handle, rfl, rfl⟩ := native_of_resource h
        cases hr with
        | leaf holds => exact moves_resource hl handle
      | option | result | variant => cases hk
      | _ =>
        rw [handles_of_plain rfl h]
        exact moves_plain hl rfl w

end Crossing

/-! ### Values in a row -/

open Memory MemoryM

variable {sig : Signature} {ids : List TypeId} {values read : List Value} {m m' : Memory}

theorem MovesRow.ownedHandlesOfAll {handles : List UInt32} (h : abi.MovesRow ids values ns)
    (hfound : abi.ownedHandlesOfAll ids values = .ok handles) :
    handles = Native.handlesOfAll ns :=
  flatten_eq_of_forall₂ (h.imp fun _ _ hw => hw _) hfound

theorem movesRow_of_native (h : abi.nativeAll ids values = .ok ns) : abi.MovesRow ids values ns :=
  (Except.forall₂_of_mapM h).imp fun _ _ hn => moves_of_native hn

theorem native_of_mem (hl : ids.length = values.length) (h : abi.nativeAll ids values = .ok ns)
    {n : Native} (hm : (id, n) ∈ ids.zip ns) : ∃ v, abi.native id v = .ok n :=
  (List.forall₂_iff_zip.1 (forall₂_of_zip (P := fun id n => ∃ v, abi.native id v = .ok n) hl
    ((Except.forall₂_of_mapM h).imp fun entry _ hn => ⟨entry.2, hn⟩))).2 hm

theorem movesRow_of_readRow (hu : ∀ id ∈ ids, abi.Unambiguous id)
    (hl : ids.length = values.length) (hn : abi.nativeAll ids values = .ok ns)
    (h : ReadRow abi (ids.map abi.shape) ns read) : abi.MovesRow ids read ns := by
  refine (h.of_map.imp (P := fun id n w => abi.Moves id w n.handles) fun id n hm w hw => ?_).zip
  obtain ⟨v, hv⟩ := native_of_mem hl hn hm
  exact readingsMove abi _ _ _ _ _ _ _ (hu id (List.of_mem_zip hm).1) hv hw

theorem handles_of_readRow (hc : abi.arena.CasesFit) (hl : ids.length = values.length)
    (hn : abi.nativeAll ids values = .ok ns) (h : ReadRow abi (ids.map abi.shape) ns read) :
    read.flatMap Value.handles = Native.handlesOfAll ns := by
  rw [Native.handlesOfAll_eq]
  refine flatMap_handles_eq (h.of_map.forall₂ fun id n hm w hw => ?_)
  obtain ⟨v, hv⟩ := native_of_mem hl hn hm
  exact hw.handles_eq hc (indexable_shape hc id) hv

theorem handles_normalizeAll (hc : abi.arena.CasesFit) (hl : ids.length = values.length)
    (hn : abi.nativeAll ids values = .ok ns) :
    (abi.normalizeAll ids values).flatMap Value.handles = Native.handlesOfAll ns := by
  have hrow := (fits_nativeAll hc hl hn).readRow
  rw [map_snd_fieldsOf, valueRow_nativeAll hc hn] at hrow
  exact handles_of_readRow hc hl hn hrow

/-! ### Calls -/

theorem readRow_passParams {crossed : LoweredCall × List Value} (hc : abi.arena.CasesFit)
    (hs : Signed abi sig) (h : runOn (abi.passParams sig values) m = (.ok crossed, m'))
    (hlt : m'.size < UInt32.size) :
    sig.paramTypes.length = values.length ∧ ∃ ns, abi.nativeAll sig.paramTypes values = .ok ns ∧
      ReadRow abi (sig.paramTypes.map abi.shape) ns crossed.2 := by
  obtain ⟨lowered, m₁, hlower, h⟩ := runOn_bind_eq_ok.1 h
  obtain ⟨params, m₂, hlift, h⟩ := runOn_bind_eq_ok.1 h
  cases h
  obtain ⟨hl, ns, hn⟩ := nativeAll_of_lowerParams hlower
  obtain ⟨ws, start?, m₁', bs, ret, hrun, -, hg, -, hcrossed⟩ := runOn_lowerParams hc hs hl hn m
  cases hlower.symm.trans hrun
  have hsize := neverShrinks_liftParams abi sig (ws ++ (start?.map Word.ofNat).toList) m₁
  rw [hlift] at hsize
  have hroom := length_le_of_grows hg
  rw [List.length_append] at hroom
  exact ⟨hl, ns, hn, readRow_liftParams hs (fits_nativeAll hc hl hn)
    (hcrossed (Nat.lt_of_le_of_lt hsize hlt)) hg.owns.left (by omega) hlift⟩

theorem readRow_passResults {lowered : LoweredCall} {ret : List Block} (hc : abi.arena.CasesFit)
    (hs : Signed abi sig) (hr : Reserved m sig.returnArea lowered.returnArea ret)
    (h : runOn (abi.passResults sig lowered values) m = (.ok read, m'))
    (hlt : m'.size < UInt32.size) :
    sig.resultTypes.length = values.length ∧ ∃ ns, abi.nativeAll sig.resultTypes values = .ok ns ∧
      ReadRow abi (sig.resultTypes.map abi.shape) ns read := by
  obtain ⟨ws, m₁, hlower, h⟩ := runOn_bind_eq_ok.1 h
  have hsize := neverShrinks_receive abi sig lowered ws m₁
  rw [receive, h] at hsize
  obtain ⟨lifted, m₂, hlift, h⟩ := runOn_bind_eq_ok.1 h
  obtain ⟨_, m₃, -, h⟩ := runOn_bind_eq_ok.1 h
  cases h
  obtain ⟨hl, ns, hn⟩ := nativeAll_of_lowerResults hlower
  obtain ⟨ws', m₁', bs, hrun, -, hreturned⟩ := runOn_lowerResults hc hs hl hn hr
  cases hlower.symm.trans hrun
  exact ⟨hl, ns, hn, readRow_liftResults hs (hreturned (Nat.lt_of_le_of_lt hsize hlt)) hlift⟩

/-- A call that succeeds reports as moved to the callee the owned handles of the parameters that the
callee received, from left to right. The results that the caller gets have the owned handles of
those that the callee returned, with their fields in declared order, and the call reports these as
moved to the caller if no record in the results has fields of one name and different types. -/
theorem handles_conserved {id : TypeId} {args : List Value}
    {callee : List Value → Except AbiError (List Value)} {outcome : CallOutcome}
    (hc : abi.arena.CasesFit) (hsig : abi.functionSignature id = .ok sig)
    (hcall : runOn (abi.call sig args callee) m = (.ok outcome, m'))
    (hm : m'.size < UInt32.size) :
    ∃ lowered params returned m₁,
      runOn (abi.passParams sig args) m = (.ok (lowered, params), m₁) ∧
      callee params = .ok returned ∧
      outcome.movedToCallee = params.flatMap Value.handles ∧
      outcome.results.flatMap Value.handles =
        (abi.normalizeAll sig.resultTypes returned).flatMap Value.handles ∧
      ((∀ id ∈ sig.resultTypes, abi.Unambiguous id) →
        outcome.movedToCaller = outcome.results.flatMap Value.handles) := by
  have hs := signed_of_functionSignature hsig
  rw [call_eq] at hcall
  obtain ⟨moved, hmoved, hcall⟩ := runOn_bind_liftM_eq_ok.1 (runOn_of_guarded_ok hcall)
  obtain ⟨⟨lowered, params⟩, m₁, hparams, hcall⟩ := runOn_bind_eq_ok.1 hcall
  -- Memory never shrinks, so it was small enough after each step if it is at the end.
  have hsize₁ := neverShrinks_answer abi sig lowered moved (callee params) m₁
  rw [hcall] at hsize₁
  have hlt₁ : m₁.size < UInt32.size := Nat.lt_of_le_of_lt hsize₁ hm
  have hcrossed := argumentsCrossed hc hs args m
  rw [hparams] at hcrossed
  obtain ⟨hl, ns, hn, hread⟩ := readRow_passParams hc hs hparams hlt₁
  obtain ⟨returned, hcallee, hcall⟩ := runOn_bind_liftM_eq_ok.1 hcall
  obtain ⟨results, m₂, hback, hcall⟩ := runOn_bind_eq_ok.1 hcall
  obtain ⟨received, hreceived, hcall⟩ := runOn_bind_liftM_eq_ok.1 hcall
  cases hcall
  refine ⟨lowered, params, returned, m₁, hparams, hcallee, ?_, ?_⟩
  · rw [handles_of_readRow hc hl hn hread]
    exact (movesRow_of_native hn).ownedHandlesOfAll hmoved
  · cases hcrossed hlt₁ with
    | @crossed _ _ m₁ bs ret grown reserved =>
      have hr : Reserved (m₁.releaseAll (Block.starts bs)) sig.returnArea lowered.returnArea ret :=
        reserved.mono (Nat.le_refl _)
      obtain ⟨hl', ns', hn', hread'⟩ := readRow_passResults hc hs hr hback hm
      have hhandles := handles_of_readRow hc hl' hn' hread'
      refine ⟨hhandles.trans (handles_normalizeAll hc hl' hn').symm, fun hu => ?_⟩
      rw [hhandles]
      exact (movesRow_of_readRow hu hl' hn' hread').ownedHandlesOfAll hreceived

/-! ### Examples -/

/-- A function that takes and returns some files and a file with their index. -/
def batch : Abi where
  arena := ⟨#[.resource { name := { name := "file" } }, .list ⟨0⟩,
    .record { name := "batch" } [("files", ⟨1⟩), ("index", ⟨0⟩)],
    .function { params := [("batch", ⟨2⟩)], results := [⟨2⟩] }]⟩

/-- The signature of the function on batches. -/
def batchSignature : Signature where
  paramTypes := [⟨2⟩]
  resultTypes := [⟨2⟩]
  flatParams := [.i32, .i32, .i32]
  flatResults := [.i32, .i32, .i32]
  coreParams := [.i32, .i32, .i32, .i32]
  coreResults := []
  paramArea := none
  returnArea := some { size := 12, align := 4 }
  needsPostReturn := true
  paramsTransferHandles := true
  resultsTransferHandles := true

/-- A batch with its fields in another order than the declared one. -/
def shuffledBatch (index : UInt32) (files : List UInt32) : Value :=
  .record [("index", .own index), ("files", .list (files.map .own))]

/-- Three files go to the callee and two come back, in declared order. -/
theorem handles_conserved_batch :
    ∃ outcome m', runOn (batch.call batchSignature [shuffledBatch 5 [3, 4]] fun _ =>
        .ok [shuffledBatch 9 [7]]) {} = (.ok outcome, m') ∧
      outcome.movedToCallee = [3, 4, 5] ∧ outcome.movedToCaller = [7, 9] ∧
      outcome.movedToCaller = outcome.results.flatMap Value.handles := by
  have hcall : runOn (batch.call batchSignature [shuffledBatch 5 [3, 4]] fun _ =>
      .ok [shuffledBatch 9 [7]]) {} =
    (.ok ⟨[.record [("files", .list [.own 7]), ("index", .own 9)]], [3, 4, 5], [7, 9]⟩,
      ⟨[0, 0, 0, 0, 3, 0, 0, 0, 4, 0, 0, 0, 24, 0, 0, 0, 1, 0, 0, 0, 9, 0, 0, 0, 7, 0, 0, 0],
        [⟨24, 4, 4, false⟩, ⟨12, 12, 4, false⟩, ⟨4, 8, 4, false⟩]⟩) := by
    cbv
  have hsig : batch.functionSignature ⟨3⟩ = .ok batchSignature := rfl
  have hdistinct : batch.arena.LabelsDistinct := by
    simp [TypeArena.LabelsDistinct, batch, TypeNode.fieldLabels]
  obtain ⟨_, _, _, _, -, -, -, -, hmoved⟩ :=
    handles_conserved (by decide) hsig hcall (by decide)
  exact ⟨_, _, hcall, rfl, rfl, hmoved fun id _ => unambiguous_of_distinct hdistinct id⟩

/-- A function whose result has two fields of one name and different types. -/
def namesakes : Abi where
  arena := ⟨#[.resource { name := { name := "file" } }, .record { name := "p" } [("p", ⟨0⟩)],
    .record { name := "q" } [("p", ⟨0⟩), ("q", ⟨0⟩)],
    .record { name := "r" } [("a", ⟨1⟩), ("a", ⟨2⟩)],
    .function { params := [], results := [⟨3⟩] }]⟩

/-- The signature of the function on namesakes. -/
def namesakesSignature : Signature where
  paramTypes := []
  resultTypes := [⟨3⟩]
  flatParams := []
  flatResults := [.i32, .i32, .i32]
  coreParams := [.i32]
  coreResults := []
  paramArea := none
  returnArea := some { size := 12, align := 4 }
  needsPostReturn := false
  paramsTransferHandles := false
  resultsTransferHandles := true

/-- Both fields are passed, but the search finds the first of them twice and misses a handle of the
second. -/
theorem namesakes_lose_handle :
    namesakes.functionSignature ⟨4⟩ = .ok namesakesSignature ∧
      ∃ outcome m', runOn (namesakes.call namesakesSignature [] fun _ =>
          .ok [.record [("a", .record [("p", .own 1), ("q", .own 2)])]]) {} = (.ok outcome, m') ∧
        outcome.results.flatMap Value.handles = [1, 1, 2] ∧
        (namesakes.normalizeAll namesakesSignature.resultTypes
          [.record [("a", .record [("p", .own 1), ("q", .own 2)])]]).flatMap Value.handles =
            [1, 1, 2] ∧
        outcome.movedToCaller = [1, 1] :=
  ⟨rfl, _, _, rfl, rfl, rfl, rfl⟩

end Abi

end ComponentAbi
