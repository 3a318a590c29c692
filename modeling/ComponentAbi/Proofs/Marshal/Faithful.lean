import ComponentAbi.Proofs.Marshal.Conservation

/-!
# Values that their native values stand for

A value may be read as a native value that stands for another one, its normal form. Here are the
values that come back as they are (`Abi.Faithful`): those that are put together from faithful parts
as their type declares them, if the parts, cases and labels of the type can be told apart
(`Shape.Distinct`). Different names are enough for that (`Abi.NamesDistinct`).

* `Abi.exists_faithful_leaf`, `Abi.exists_faithful_product`, `Abi.exists_faithful_list`,
  `Abi.faithful_bare`, `Abi.Faithful.payload` : one for every way to put a value together.
-/

namespace ComponentAbi

/-! ### Names -/

namespace TypeNode

/-- The names of the fields of a record, of the cases of a variant or an enumeration, or of the
labels of a set of flags. -/
def names : TypeNode → List String
  | record _ fields => fields.map (·.1)
  | variant _ cases => cases.map (·.1)
  | enum _ cases => cases
  | flags _ labels => labels
  | _ => []

end TypeNode

namespace Abi

variable {abi : Abi} {id resolved : TypeId} {node : TypeNode}

/-- In each of the types that values of the type are made of, the fields, cases or labels have
different names. -/
def NamesDistinct (abi : Abi) (id : TypeId) : Prop :=
  ∀ node, abi.MadeOf id node → node.names.Nodup

theorem NamesDistinct.part {part : TypeId} (h : abi.NamesDistinct id)
    (hl : abi.lookup id = .ok (resolved, node)) (hm : part ∈ node.components) :
    abi.NamesDistinct part :=
  fun inner hmade => h inner (.part hl hm hmade)

/-- It is enough that the names are different in every type of the graph. -/
theorem namesDistinct_of_nodes (h : ∀ node ∈ abi.arena.nodes.toList, node.names.Nodup)
    (id : TypeId) : abi.NamesDistinct id :=
  fun node hmade => h node (mem_nodes_of_madeOf hmade)

end Abi

/-- The names of the cases of an enumeration, or of the labels of a set of flags. -/
def Leaf.names : Leaf → List String
  | enum cases => cases
  | flags _ labels => labels
  | _ => []

/-- The parts of a value can be told apart: those of a record by their names. -/
def ProductKind.TellsApart : ProductKind → List String → Prop
  | record _, labels => labels.Nodup
  | tuple, _ => True

/-- The case of a value can be told: that of a variant by its name, and that of an option by its
payload. -/
def SumKind.TellsApart : SumKind → List (String × Option Shape) → Prop
  | option, cases => ∃ payload, cases = [("none", none), ("some", some payload)]
  | result, cases => cases.length = 2
  | variant _, cases => (cases.map (·.1)).Nodup

/-- Parts, cases and labels can be told apart everywhere in the shape. -/
inductive Shape.Distinct (abi : Abi) : Shape → Prop where
  | leaf {l : Leaf} (names : l.names.Nodup) : Distinct abi (.leaf l)
  | string : Distinct abi .string
  | list {element : TypeId} (element_distinct : abi.NamesDistinct element) :
    Distinct abi (.list element)
  | product {kind : ProductKind} {fields : List (String × Shape)}
    (apart : kind.TellsApart (fields.map (·.1))) (parts : ∀ field ∈ fields, Distinct abi field.2) :
    Distinct abi (.product kind fields)
  | sum {kind : SumKind} {cases : List (String × Option Shape)} (apart : kind.TellsApart cases)
    (payloads : ∀ label s, (label, some s) ∈ cases → Distinct abi s) :
    Distinct abi (.sum kind cases)
  | unsupported (kind title : String) : Distinct abi (.unsupported kind title)
  | unresolved (cause : AbiError) : Distinct abi (.unresolved cause)

section OfNode

variable {abi : Abi} {inner : TypeId → Shape} {node : TypeNode}

theorem Shape.distinct_cases {kind : SumKind} {cases : List (String × Option TypeId)}
    (hk : node.sum? = some (kind, cases)) (h : ∀ part ∈ node.components, (inner part).Distinct abi)
    (label : String) (s : Shape)
    (hm : (label, some s) ∈ cases.map fun (label, c) => (label, c.map inner)) : s.Distinct abi := by
  obtain ⟨⟨label', c⟩, hcase, he⟩ := List.mem_map.1 hm
  cases c with
  | none => cases he
  | some part =>
    cases he
    obtain ⟨i, hi⟩ := List.mem_iff_getElem?.1 hcase
    exact h part (Abi.mem_components_of_case hk hi)

/-- Names that are different in a node are different in its shape. -/
theorem Shape.distinct_ofNode (hnames : node.names.Nodup)
    (hlist : ∀ element, node = .list element → abi.NamesDistinct element)
    (h : ∀ part ∈ node.components, (inner part).Distinct abi) :
    (ofNode inner node).Distinct abi := by
  cases node with
  | scalar s => exact .leaf List.nodup_nil
  | string => exact .string
  | list element => exact .list (hlist element rfl)
  | tuple elements =>
    refine .product trivial fun field hm => ?_
    obtain ⟨part, hpart, rfl⟩ := List.mem_map.1 hm
    exact h part hpart
  | record name fields =>
    refine .product ?_ fun field hm => ?_
    · rw [ProductKind.TellsApart, List.map_map]
      exact hnames
    · obtain ⟨part, hpart, rfl⟩ := List.mem_map.1 hm
      exact h part.2 (List.mem_map_of_mem hpart)
  | option payload => exact .sum ⟨_, rfl⟩ (@distinct_cases _ _ (.option payload) _ _ rfl h)
  | result ok err => exact .sum rfl (@distinct_cases _ _ (.result ok err) _ _ rfl h)
  | variant name cases =>
    refine .sum ?_ (distinct_cases rfl h)
    rw [SumKind.TellsApart, List.map_map]
    exact hnames
  | enum name cases => exact .leaf hnames
  | flags name labels => exact .leaf hnames
  | resource r | borrow r => exact .leaf List.nodup_nil
  | function | interface | world | stream | future | reference => exact .unsupported _ _

end OfNode

/-- Where names are different, everything in the shape of the type can be told apart. -/
theorem Abi.distinct_unfold {abi : Abi} {id : TypeId} (h : abi.NamesDistinct id) (d : Nat)
    (path : List TypeId) : (abi.unfold d path id).Distinct abi := by
  induction d generalizing path id with
  | zero => exact .unresolved _
  | succ d ih =>
    rw [unfold]
    split
    · exact .unresolved _
    · rename_i resolved node hl
      split
      · exact .unresolved _
      · refine Shape.distinct_ofNode (h node (.itself hl)) ?_ fun part hm => ih (h.part hl hm) _
        rintro element rfl
        exact h.part hl List.mem_cons_self

/-! ### Putting values together and taking them apart -/

theorem idxOf?_of_nodup {labels : List String} {index : Nat} {label : String}
    (hn : labels.Nodup) (h : labels[index]? = some label) : labels.idxOf? label = some index := by
  obtain ⟨hlt, he⟩ := List.getElem?_eq_some_iff.1 h
  refine List.idxOf?_eq_some_iff.2 ⟨hlt, he, fun j hj hsame => ?_⟩
  exact Nat.ne_of_lt hj ((List.Nodup.getElem_inj_iff hn).1 (hsame.trans he.symm))

namespace Leaf

variable {l : Leaf} {v : Value} {labels : List String} {bits : Nat}

/-- What is decoded is a value of the leaf type, written as the type declares it. -/
theorem exists_holds_of_decode (hn : l.names.Nodup)
    (hlt : ∀ cases, l = .enum cases → bits < UInt32.size) (h : l.decode bits = .ok v) :
    ∃ a, l.atom v = .ok a ∧ (∃ bits', l.Holds a bits') ∧ l.value a = v := by
  cases l with
  | scalar s =>
    obtain ⟨n, hencode⟩ := Scalar.exists_encode_of_decode h
    have ha : (scalar s).atom v = .ok (.scalar v) := by
      rw [atom, hencode]
      rfl
    exact ⟨_, ha, holds_atom (fun _ he => by cases he) ha, rfl⟩
  | enum cases =>
    have hn : cases.Nodup := hn
    rw [decode] at h
    split at h
    · rename_i label hlabel
      cases h
      have ha : (enum cases).atom (.enum label) = .ok (.enum bits) := by
        rw [atom, idxOf?_of_nodup hn hlabel]
      refine ⟨_, ha, holds_atom (fun _ he => ?_) ha, ?_⟩
      · cases he
        exact hlt cases rfl
      · rw [value, hlabel, Option.getD_some]
    · cases h
  | flags name labels =>
    have hn : labels.Nodup := hn
    obtain ⟨u, hcheck, h⟩ := Except.bind_eq_ok.1 h
    cases h
    have hsub := sublist_setFlags labels bits
    obtain ⟨bits', hbits⟩ := exists_flagBits fun label hm => hsub.subset hm
    have ha : (flags name labels).atom (.flags (setFlags labels bits)) = .ok (.flags bits') := by
      rw [atom, hcheck, hbits]
      rfl
    refine ⟨_, ha, holds_atom (fun _ he => by cases he) ha, ?_⟩
    rw [value_atom ha, normalize, Abi.eraseDups_of_nodup hn, Abi.filter_of_sublist hn hsub]
  | own =>
    cases h
    have ha : own.atom (.own (UInt32.ofNat bits)) = .ok (.own (UInt32.ofNat bits)) := rfl
    exact ⟨_, ha, holds_atom (fun _ he => by cases he) ha, rfl⟩
  | borrow =>
    cases h
    have ha : borrow.atom (.borrow (UInt32.ofNat bits)) = .ok (.borrow (UInt32.ofNat bits)) := rfl
    exact ⟨_, ha, holds_atom (fun _ he => by cases he) ha, rfl⟩

end Leaf

namespace ProductKind

variable {kind : ProductKind} {labels : List String} {values : List Value}

theorem map_recordField_zip (hn : labels.Nodup) (hl : values.length = labels.length) :
    labels.map (recordField (labels.zip values)) = values.map .ok := by
  induction labels generalizing values with
  | nil => rw [List.length_eq_zero_iff.1 hl, List.map_nil, List.map_nil]
  | cons label labels ih =>
    cases values with
    | nil => cases hl
    | cons v values =>
      obtain ⟨hnot, hn⟩ := List.nodup_cons.1 hn
      rw [List.map_cons, List.map_cons, ← ih hn (Nat.succ.inj hl), List.zip_cons_cons]
      congr 1
      · simp [recordField]
      · refine List.map_congr_left fun other hm => ?_
        have hne : other ≠ label := fun he => hnot (he ▸ hm)
        simp [recordField, List.lookup_cons, beq_false_of_ne hne]

/-- Taking apart what was put together gives the same parts. -/
theorem TellsApart.parts_build (h : kind.TellsApart labels) (hl : values.length = labels.length) :
    kind.parts labels (kind.build labels values) = .ok (values.map .ok) := by
  cases kind with
  | record name => exact congrArg Except.ok (map_recordField_zip h hl)
  | tuple => exact if_pos hl.symm

theorem fieldDepths_zip (hl : values.length = labels.length) :
    Value.fieldDepths (labels.zip values) = Value.depths values := by
  induction labels generalizing values with
  | nil =>
    rw [List.length_eq_zero_iff.1 hl]
    rfl
  | cons label labels ih =>
    cases values with
    | nil => cases hl
    | cons v values => exact congrArg (max v.depth) (ih (Nat.succ.inj hl))

theorem depth_lt_build (hl : values.length = labels.length) {v : Value} (hm : v ∈ values) :
    v.depth < (kind.build labels values).depth := by
  have hlt := Nat.lt_succ_of_le (Value.depth_le_depths hm)
  cases kind with
  | record name =>
    rw [← fieldDepths_zip hl] at hlt
    exact hlt
  | tuple => exact hlt

end ProductKind

namespace SumKind.TellsApart

variable {kind : SumKind} {cases : List (String × Option Shape)} {index : Nat} {label : String}
  {shape : Option Shape} {payload : Option Value}

/-- The index of a case that was read fits into as many bytes as it has in memory. -/
theorem index_lt (h : kind.TellsApart cases) (hcase : cases[index]? = some (label, shape))
    (hlt : index < UInt32.size) : index < 256 ^ kind.discriminantSize := by
  cases kind with
  | option =>
    obtain ⟨_, rfl⟩ := h
    obtain ⟨hi, -⟩ := List.getElem?_eq_some_iff.1 hcase
    exact Nat.lt_of_lt_of_le hi (Nat.le_of_ble_eq_true rfl)
  | result | variant => exact hlt

/-- A value that was put into a case is in that case. -/
theorem caseOf_build (h : kind.TellsApart cases) (hcase : cases[index]? = some (label, shape))
    (hp : payload.isSome = shape.isSome) :
    kind.caseOf (cases.map (·.1)) (kind.build index label payload) = .ok (index, payload) := by
  cases kind with
  | option =>
    obtain ⟨inner, rfl⟩ := h
    match index with
    | 0 =>
      cases hcase
      rw [Option.isSome_none, Option.isSome_eq_false_iff, Option.isNone_iff_eq_none] at hp
      rw [hp]
      rfl
    | 1 =>
      cases hcase
      obtain ⟨v, rfl⟩ := Option.isSome_iff_exists.1 hp
      rfl
  | result =>
    obtain ⟨hi, -⟩ := List.getElem?_eq_some_iff.1 hcase
    match index with
    | 0 | 1 => rfl
    | index + 2 => exact absurd hi (by rw [show cases.length = 2 from h]; omega)
  | variant name =>
    have hi := idxOf?_of_nodup h (label_of_case hcase)
    simp only [build, caseOf, hi]

/-- The payload of a value that was put into a case is paired to the type of the case. -/
theorem select_build {paired : Option (Shape × Value)} (h : kind.TellsApart cases)
    (hcase : cases[index]? = some (label, shape)) (hpair : pairPayload shape payload = .ok paired) :
    kind.select cases (kind.build index label payload) = .ok (index, paired) := by
  have hp : payload.isSome = shape.isSome := by
    cases shape <;> cases payload <;> cases hpair <;> rfl
  refine Except.bind_eq_ok.2 ⟨_, h.caseOf_build hcase hp, ?_⟩
  dsimp only
  rw [hcase]
  exact Except.bind_eq_ok.2 ⟨paired, hpair, rfl⟩

theorem depth_build {inner : Shape} (h : kind.TellsApart cases)
    (hcase : cases[index]? = some (label, some inner)) (v : Value) :
    (kind.build index label (some v)).depth = v.depth + 1 := by
  have hof : kind.caseOf _ (kind.build index label (some v)) = .ok (index, some v) :=
    h.caseOf_build hcase rfl
  rw [← (inCase hof).withPayload, (inCase hof).depth_withPayload]
  rfl

end SumKind.TellsApart

/-! ### Values that come back -/

namespace Abi

/-- The value is read as the native value, at every depth that is enough for it, and the native
value is one of the type and stands for it. The items that its empty lists do not have are not too
large for a word. -/
structure Faithful (abi : Abi) (s : Shape) (v : Value) (n : Native) : Prop where
  native : ∀ d, v.depth < d → abi.nativeWithin d s v = .ok n
  fits : Fits abi s n
  value : abi.value s n = v
  strides : EveryList abi Layout.Strided s n

variable {abi : Abi} {s : Shape} {v : Value}

theorem exists_pred_of_depth_lt {v : Value} {d : Nat} (h : v.depth < d) : ∃ d', d = d' + 1 :=
  ⟨d - 1, by omega⟩

theorem exists_faithful_leaf {l : Leaf} {bits : Nat} (hn : l.names.Nodup)
    (hlt : ∀ cases, l = .enum cases → bits < UInt32.size) (h : l.decode bits = .ok v) :
    ∃ n, abi.Faithful (.leaf l) v n := by
  obtain ⟨a, ha, ⟨bits', hholds⟩, hvalue⟩ := Leaf.exists_holds_of_decode hn hlt h
  refine ⟨.atom a, fun d hd => ?_, .leaf hholds, hvalue, trivial⟩
  obtain ⟨d, rfl⟩ := exists_pred_of_depth_lt hd
  rw [nativeWithin, ha]
  rfl

theorem faithful_string (text : String) : abi.Faithful .string (.string text) (.text text) where
  native d hd := by
    obtain ⟨d, rfl⟩ := exists_pred_of_depth_lt hd
    rfl
  fits := .text text
  value := rfl
  strides := trivial

/-- Values that come back one by one come back in a row. -/
theorem exists_faithful_row {fields : List (String × Shape)} {values : List Value}
    (h : List.Forall₂ (fun field v => ∃ n, abi.Faithful field.2 v n) fields values) :
    ∃ ns, (∀ d, (∀ v ∈ values, v.depth < d) →
        ((fields.zip (values.map Except.ok)).mapM fun ((_, field), part) => do
          abi.nativeWithin d field (← part)) = .ok ns) ∧
      FitsRow abi fields ns ∧ abi.valueRow fields ns = values ∧
      EveryListRow abi Layout.Strided fields ns := by
  induction h with
  | nil => exact ⟨[], fun _ _ => rfl, .nil, rfl, trivial⟩
  | cons head _ ih =>
    obtain ⟨n, hn⟩ := head
    obtain ⟨ns, hnative, hfits, hvalue, hstrides⟩ := ih
    refine ⟨n :: ns, fun d hd => ?_, .cons hn.fits hfits, ?_, hn.strides, hstrides⟩
    · obtain ⟨hd, hdrest⟩ := List.forall_mem_cons.1 hd
      exact Except.mapM_cons_eq_ok.2 ⟨n, ns, hn.native d hd, hnative d hdrest, rfl⟩
    · rw [valueRow, hn.value, hvalue]

theorem exists_faithful_product {kind : ProductKind} {fields : List (String × Shape)}
    {values : List Value} (apart : kind.TellsApart (fields.map (·.1)))
    (h : List.Forall₂ (fun field v => ∃ n, abi.Faithful field.2 v n) fields values) :
    ∃ n, abi.Faithful (.product kind fields) (kind.build (fields.map (·.1)) values) n := by
  obtain ⟨ns, hnative, hfits, hvalue, hstrides⟩ := exists_faithful_row h
  have hl : values.length = (fields.map (·.1)).length := by rw [List.length_map, h.length_eq]
  refine ⟨.product ns, fun d hd => ?_, .product hfits, ?_, hstrides⟩
  · obtain ⟨d, rfl⟩ := exists_pred_of_depth_lt hd
    have hns := hnative d fun v hm =>
      Nat.lt_of_lt_of_le (ProductKind.depth_lt_build hl hm) (Nat.le_of_lt_succ hd)
    exact Except.bind_eq_ok.2 ⟨_, apart.parts_build hl, Except.bind_eq_ok.2 ⟨ns, hns, rfl⟩⟩
  · rw [value, hvalue]

/-- So are values of one type. -/
theorem exists_faithful_items {items : List Value} (h : ∀ v ∈ items, ∃ n, abi.Faithful s v n) :
    ∃ ns, (∀ d, (∀ v ∈ items, v.depth < d) → items.mapM (abi.nativeWithin d s) = .ok ns) ∧
      (∀ n ∈ ns, Fits abi s n) ∧ abi.valueItems s ns = items ∧
      EveryListItems abi Layout.Strided s ns := by
  induction items with
  | nil => exact ⟨[], fun _ _ => rfl, fun _ hm => absurd hm List.not_mem_nil, rfl, trivial⟩
  | cons v items ih =>
    obtain ⟨⟨n, hn⟩, hrest⟩ := List.forall_mem_cons.1 h
    obtain ⟨ns, hnative, hfits, hvalue, hstrides⟩ := ih hrest
    refine ⟨n :: ns, fun d hd => ?_, List.forall_mem_cons.2 ⟨hn.fits, hfits⟩, ?_, hn.strides,
      hstrides⟩
    · obtain ⟨hd, hdrest⟩ := List.forall_mem_cons.1 hd
      exact Except.mapM_cons_eq_ok.2 ⟨n, ns, hn.native d hd, hnative d hdrest, rfl⟩
    · rw [valueItems, hn.value, hvalue]

theorem exists_faithful_list {element : TypeId} {layout : Layout} {items : List Value}
    (hl : (abi.shape element).layout = .ok layout) (hstride : layout.size < UInt32.size)
    (h : ∀ v ∈ items, ∃ n, abi.Faithful (abi.shape element) v n) :
    ∃ n, abi.Faithful (.list element) (.list items) n := by
  obtain ⟨ns, hnative, hfits, hvalue, hstrides⟩ := exists_faithful_items h
  refine ⟨.list ns, fun d hd => ?_, .list hl hfits, by rw [value, hvalue], fun l hl' => ?_,
    hstrides⟩
  · obtain ⟨d, rfl⟩ := exists_pred_of_depth_lt hd
    have hns := hnative d fun v hm =>
      Nat.lt_of_le_of_lt (Value.depth_le_depths hm) (Nat.lt_of_succ_lt_succ hd)
    exact Except.bind_eq_ok.2 ⟨_, hl, Except.bind_eq_ok.2 ⟨ns, hns, rfl⟩⟩
  · cases hl.symm.trans hl'
    exact fun _ => hstride

section Sums

variable {kind : SumKind} {cases : List (String × Option Shape)} {index : Nat} {label : String}

theorem faithful_bare (apart : kind.TellsApart cases)
    (hcase : cases[index]? = some (label, none)) (hlt : index < UInt32.size) :
    abi.Faithful (.sum kind cases) (kind.build index label none) (.sum index none) where
  native d hd := by
    obtain ⟨d, rfl⟩ := exists_pred_of_depth_lt hd
    rw [nativeWithin, apart.select_build hcase rfl]
    rfl
  fits := .bare hcase (apart.index_lt hcase hlt)
  value := by
    rw [value, hcase]
    rfl
  strides := by
    rw [EveryList, hcase]
    trivial

theorem Faithful.payload {n : Native} (h : abi.Faithful s v n) (apart : kind.TellsApart cases)
    (hcase : cases[index]? = some (label, some s)) (hlt : index < UInt32.size) :
    abi.Faithful (.sum kind cases) (kind.build index label (some v)) (.sum index (some n)) where
  native d hd := by
    obtain ⟨d, rfl⟩ := exists_pred_of_depth_lt hd
    rw [apart.depth_build hcase] at hd
    refine Except.bind_eq_ok.2 ⟨_, apart.select_build hcase rfl, ?_⟩
    exact Except.bind_eq_ok.2 ⟨n, h.native d (Nat.lt_of_succ_lt_succ hd), rfl⟩
  fits := .payload hcase (apart.index_lt hcase hlt) h.fits
  value := by
    rw [Abi.value, hcase]
    exact congrArg (fun v => kind.build index label (some v)) h.value
  strides := (everyList_payload hcase rfl rfl).2 h.strides

end Sums

end Abi

end ComponentAbi
