import ComponentAbi.Marshal.Parts
import ComponentAbi.Proofs.Native.Basic
import ComponentAbi.Proofs.Shape.Placement

/-!
# Native values of a type

The native value that a type reads a value as (`Abi.native`), and the native values that a type has
(`Fits`). What a value is read as is one of them (`Abi.fits_nativeWithin`).
-/

namespace ComponentAbi

namespace Abi

variable (abi : Abi)

/-! ### From values to native values -/

/-- The native value of a value that is nested less than `depth` deep. The items of a list must be
of a type that has a layout. -/
def nativeWithin : Nat → Shape → Value → Except AbiError Native
  | 0, _, _ => .error .unboundedNesting
  | depth + 1, shape, v =>
    match shape, v with
    | .leaf l, v => (l.atom v).map .atom
    | .string, .string text => .ok (.text text)
    | .list element, .list items => do
      let _ ← (abi.shape element).layout
      return .list (← items.mapM (nativeWithin depth (abi.shape element)))
    | .product kind fields, v => do
      let parts ← kind.parts (fields.map (·.1)) v
      let natives ← (fields.zip parts).mapM fun ((_, field), part) => do
        nativeWithin depth field (← part)
      return .product natives
    | .sum kind cases, v => do
      let (index, payload) ← kind.select cases v
      match payload with
      | none => return .sum index none
      | some (shape, v) => return .sum index (some (← nativeWithin depth shape v))
    | .unresolved cause, _ => .error cause
    | shape, v => .error (kindMismatch shape.kind v)

/-- The native value of a value of a type. -/
def native (id : TypeId) (v : Value) : Except AbiError Native :=
  abi.nativeWithin (v.depth + 1) (abi.shape id) v

end Abi

/-! ### The native values of a type -/

mutual

/-- The native value is one of the type. -/
inductive Fits (abi : Abi) : Shape → Native → Prop where
  | leaf {l : Leaf} {a : Atom} {bits : Nat} (holds : l.Holds a bits) :
    Fits abi (.leaf l) (.atom a)
  | text (text : String) : Fits abi .string (.text text)
  | list {element : TypeId} {layout : Layout} {items : List Native}
    (laid : (abi.shape element).layout = .ok layout)
    (fit : ∀ n ∈ items, Fits abi (abi.shape element) n) :
    Fits abi (.list element) (.list items)
  | product {kind : ProductKind} {fields : List (String × Shape)} {parts : List Native}
    (fit : FitsRow abi fields parts) : Fits abi (.product kind fields) (.product parts)
  | bare {kind : SumKind} {cases : List (String × Option Shape)} {index : Nat} {label : String}
    (case : cases[index]? = some (label, none)) (lt : index < 256 ^ kind.discriminantSize) :
    Fits abi (.sum kind cases) (.sum index none)
  | payload {kind : SumKind} {cases : List (String × Option Shape)} {index : Nat} {label : String}
    {shape : Shape} {n : Native}
    (case : cases[index]? = some (label, some shape)) (lt : index < 256 ^ kind.discriminantSize)
    (fit : Fits abi shape n) : Fits abi (.sum kind cases) (.sum index (some n))

/-- The native values are those of the fields. -/
inductive FitsRow (abi : Abi) : List (String × Shape) → List Native → Prop where
  | nil : FitsRow abi [] []
  | cons {label : String} {shape : Shape} {fields : List (String × Shape)} {n : Native}
    {parts : List Native} (head : Fits abi shape n) (tail : FitsRow abi fields parts) :
    FitsRow abi ((label, shape) :: fields) (n :: parts)

end

theorem FitsRow.forall₂ {abi : Abi} {fields : List (String × Shape)} {ns : List Native}
    (h : FitsRow abi fields ns) : List.Forall₂ (fun field n => Fits abi field.2 n) fields ns := by
  induction fields generalizing ns with
  | nil => cases h; exact .nil
  | cons field fields ih =>
    cases h with
    | cons head tail => exact .cons head (ih tail)

/-! ### The lists in a native value -/

section EveryList

variable (abi : Abi) (P : Layout → Nat → Prop)

mutual

/-- Every list in the native value has the property, which is one of the layout of its items and of
their number. -/
def EveryList : Shape → Native → Prop
  | .list element, .list items =>
    (∀ layout, (abi.shape element).layout = .ok layout → P layout items.length) ∧
      EveryListItems (abi.shape element) items
  | .product _ fields, .product parts => EveryListRow fields parts
  | .sum _ cases, .sum index payload => EveryListPayload (cases[index]?.bind (·.2)) payload
  | _, _ => True
termination_by structural _ n => n

/-- The same for the items of a list. -/
def EveryListItems : Shape → List Native → Prop
  | _, [] => True
  | shape, n :: rest => EveryList shape n ∧ EveryListItems shape rest
termination_by structural _ items => items

/-- The same for the parts of a product. -/
def EveryListRow : List (String × Shape) → List Native → Prop
  | (_, shape) :: fields, n :: rest => EveryList shape n ∧ EveryListRow fields rest
  | _, _ => True
termination_by structural _ parts => parts

/-- The same for the payload of a case. -/
def EveryListPayload : Option Shape → Option Native → Prop
  | some shape, some n => EveryList shape n
  | _, _ => True
termination_by structural _ payload => payload

end

end EveryList

section EveryList

variable {abi : Abi} {P Q R : Layout → Nat → Prop}

mutual

theorem EveryList.imp₂ (h : ∀ l count, P l count → Q l count → R l count) :
    {n : Native} → {s : Shape} → EveryList abi P s n → EveryList abi Q s n → EveryList abi R s n
  | .list items, s, hp, hq => by
    cases s with
    | list element =>
      exact ⟨fun l hl => h l _ (hp.1 l hl) (hq.1 l hl), EveryListItems.imp₂ h hp.2 hq.2⟩
    | _ => trivial
  | .product parts, s, hp, hq => by
    cases s with
    | product kind fields => exact EveryListRow.imp₂ h hp hq
    | _ => trivial
  | .sum index payload, s, hp, hq => by
    cases s with
    | sum kind cases => exact EveryListPayload.imp₂ h hp hq
    | _ => trivial
  | .atom _, s, _, _ | .text _, s, _, _ => by
    cases s <;> trivial
termination_by structural n => n

theorem EveryListItems.imp₂ (h : ∀ l count, P l count → Q l count → R l count) :
    {items : List Native} → {s : Shape} → EveryListItems abi P s items →
      EveryListItems abi Q s items → EveryListItems abi R s items
  | [], _, _, _ => trivial
  | _ :: _, _, hp, hq => ⟨hp.1.imp₂ h hq.1, hp.2.imp₂ h hq.2⟩
termination_by structural items => items

theorem EveryListRow.imp₂ (h : ∀ l count, P l count → Q l count → R l count) :
    {parts : List Native} → {fields : List (String × Shape)} → EveryListRow abi P fields parts →
      EveryListRow abi Q fields parts → EveryListRow abi R fields parts
  | [], fields, _, _ => by
    cases fields <;> trivial
  | _ :: _, fields, hp, hq => by
    cases fields with
    | nil => trivial
    | cons field fields => exact ⟨hp.1.imp₂ h hq.1, hp.2.imp₂ h hq.2⟩
termination_by structural parts => parts

theorem EveryListPayload.imp₂ (h : ∀ l count, P l count → Q l count → R l count) :
    {payload : Option Native} → {shape : Option Shape} → EveryListPayload abi P shape payload →
      EveryListPayload abi Q shape payload → EveryListPayload abi R shape payload
  | none, shape, _, _ => by
    cases shape <;> trivial
  | some n, shape, hp, hq => by
    cases shape with
    | none => trivial
    | some s => exact EveryList.imp₂ h hp hq
termination_by structural payload => payload

end

/-- The property of a sum is that of the payload. -/
theorem everyList_payload {kind : SumKind} {cases : List (String × Option Shape)} {index : Nat}
    {payload : Option Native} {case : String × Option Shape} {s : Shape} {n : Native}
    (hcase : cases[index]? = some case) (hs : case.2 = some s) (hn : payload = some n) :
    EveryList abi P (.sum kind cases) (.sum index payload) ↔ EveryList abi P s n := by
  rw [EveryList, hcase, Option.bind_some, hs, hn]
  rfl

end EveryList

/-- Items of the layout take up room, if there are any. -/
def Layout.TakesRoom (l : Layout) (count : Nat) : Prop :=
  count ≠ 0 → 0 < l.size

/-- If there are no items of the layout, the step from one to the next fits a word all the same.
Where there are some, it is no larger than the memory that they are in. -/
def Layout.Strided (l : Layout) (count : Nat) : Prop :=
  count = 0 → l.size < UInt32.size

/-- Items of the layout are read from a memory of `room` bytes. Those that take up no room are read
as if each took one byte: there are fewer of them than `room`, and their number fits a word. -/
def Layout.Readable (room : Nat) (l : Layout) (count : Nat) : Prop :=
  l.Strided count ∧ (count ≠ 0 → l.size = 0 → count < room ∧ count < UInt32.size)

/-- Where all items take up room, there is nothing to ask of the memory. -/
theorem EveryList.readable {abi : Abi} {room : Nat} {s : Shape} {n : Native}
    (hr : EveryList abi Layout.TakesRoom s n) (hs : EveryList abi Layout.Strided s n) :
    EveryList abi (Layout.Readable room) s n :=
  hr.imp₂ (fun _ _ hr hs => ⟨hs, fun hne hz => absurd hz (hr hne).ne'⟩) hs

namespace Abi

variable (abi : Abi) (room : Nat) (id : TypeId) (v : Value)

/-- No list in the value has items, but items that take up no room. -/
def ItemsSized : Prop :=
  ∀ n, abi.native id v = .ok n → EveryList abi Layout.TakesRoom (abi.shape id) n

/-- The items that the empty lists in the value do not have are of types of fewer than `2 ^ 32`
bytes. -/
def StridesFit : Prop :=
  ∀ n, abi.native id v = .ok n → EveryList abi Layout.Strided (abi.shape id) n

/-- The lists in the value are read from a memory of `room` bytes. -/
def ListsRoomy : Prop :=
  ∀ n, abi.native id v = .ok n → EveryList abi (Layout.Readable room) (abi.shape id) n

end Abi

/-! ### Taking values apart -/

namespace ProductKind

variable {kind : ProductKind} {labels : List String} {v : Value}

theorem length_parts {ps : List (Except AbiError Value)} (h : kind.parts labels v = .ok ps) :
    ps.length = labels.length := by
  cases kind with
  | record name =>
    cases v with
    | record given =>
      cases h
      rw [List.length_map]
    | _ => cases h
  | tuple =>
    cases v with
    | tuple items =>
      rw [parts] at h
      split at h
      · rename_i hl
        cases h
        rw [List.length_map, hl]
      · cases h
    | _ => cases h

end ProductKind

namespace SumKind

variable {kind : SumKind} {labels : List String} {cases : List (String × Option Shape)} {v : Value}
  {index : Nat} {payload : Option Value}

theorem caseOf_lt (hk : kind.Admits labels.length)
    (h : kind.caseOf labels v = .ok (index, payload)) :
    index < labels.length := by
  cases kind with
  | option =>
    have hk : labels.length = 2 := hk
    cases v with
    | option p => cases p <;> cases h <;> omega
    | _ => cases h
  | result =>
    have hk : labels.length = 2 := hk
    cases v with
    | ok p => cases h; omega
    | err p => cases h; omega
    | _ => cases h
  | variant name =>
    cases v with
    | variant label p =>
      rw [caseOf] at h
      split at h
      · rename_i i hi
        cases h
        exact (List.idxOf?_eq_some_iff.1 hi).1
      · cases h
    | _ => cases h

theorem select_eq_ok {paired : Option (Shape × Value)} (hk : kind.Admits cases.length)
    (h : kind.select cases v = .ok (index, paired)) :
    ∃ label shape payload, cases[index]? = some (label, shape) ∧
      kind.caseOf (cases.map (·.1)) v = .ok (index, payload) ∧
      pairPayload shape payload = .ok paired := by
  obtain ⟨⟨i, payload⟩, hc, h⟩ := Except.bind_eq_ok.1 h
  obtain ⟨q, hp, h⟩ := Except.bind_eq_ok.1 h
  cases h
  have hlt := caseOf_lt (by rwa [List.length_map]) hc
  rw [List.length_map] at hlt
  refine ⟨_, _, payload, List.getElem?_eq_getElem hlt, hc, ?_⟩
  rw [List.getElem?_eq_getElem hlt] at hp
  exact hp

/-- The payload of a case is paired to the type that the case declares for it. -/
theorem payload_of_select {shape : Shape} {v' : Value}
    (h : kind.select cases v = .ok (index, some (shape, v'))) :
    (cases[index]?).bind (·.2) = some shape := by
  obtain ⟨⟨i, payload⟩, -, h⟩ := Except.bind_eq_ok.1 h
  obtain ⟨paired, hpair, h⟩ := Except.bind_eq_ok.1 h
  cases h
  generalize (cases[index]?).bind (·.2) = declared at hpair
  cases declared <;> cases payload <;> cases hpair
  rfl

end SumKind

/-! ### What is read as a native value -/

namespace Abi

variable {abi : Abi} {d : Nat} {s : Shape} {v : Value} {n : Native}

theorem fitsRow_of_mapM {fields : List (String × Shape)} {parts : List (Except AbiError Value)}
    {ns : List Native} (hf : ∀ field ∈ fields, ∀ v n, abi.nativeWithin d field.2 v = .ok n →
      Fits abi field.2 n) (hl : parts.length = fields.length)
    (h : ((fields.zip parts).mapM fun ((_, field), part) => do
      abi.nativeWithin d field (← part)) = .ok ns) : FitsRow abi fields ns := by
  induction fields generalizing parts ns with
  | nil => cases h; exact .nil
  | cons field fields ih =>
    cases parts with
    | nil => cases hl
    | cons part parts =>
      obtain ⟨n, ns, hn, hns, rfl⟩ := Except.mapM_cons_eq_ok.1 h
      obtain ⟨v, -, hn⟩ := Except.bind_eq_ok.1 hn
      refine .cons (hf field List.mem_cons_self v n hn) (ih (fun f hm => ?_) ?_ hns)
      · exact hf f (List.mem_cons_of_mem _ hm)
      · exact Nat.succ.inj hl

/-- What a value is read as is a native value of the type. -/
theorem fits_nativeWithin (hc : abi.arena.CasesFit) (hs : s.Indexable)
    (h : abi.nativeWithin d s v = .ok n) : Fits abi s n := by
  induction d generalizing s v n with
  | zero => cases h
  | succ d ih =>
    cases s with
    | leaf l =>
      obtain ⟨a, ha, rfl⟩ := Except.map_eq_ok.1 h
      obtain ⟨bits, hb⟩ := Leaf.holds_atom (fun _ => Leaf.index_lt_of_atom hs ha) ha
      exact .leaf hb
    | string =>
      cases v with
      | string text => cases h; exact .text text
      | _ => cases h
    | list element =>
      cases v with
      | list items =>
        obtain ⟨layout, hl, h⟩ := Except.bind_eq_ok.1 h
        obtain ⟨ns, hns, h⟩ := Except.bind_eq_ok.1 h
        cases h
        refine .list hl fun n hn => ?_
        obtain ⟨v, -, hv⟩ := Except.exists_of_mem_mapM hns hn
        exact ih (indexable_shape hc element) hv
      | _ => cases h
    | product kind fields =>
      obtain ⟨parts, hp, h⟩ := Except.bind_eq_ok.1 h
      obtain ⟨ns, hns, h⟩ := Except.bind_eq_ok.1 h
      cases h
      have hl := ProductKind.length_parts hp
      rw [List.length_map] at hl
      have hi := Shape.fieldsIndexable_iff.1 hs
      exact .product (fitsRow_of_mapM (fun field hm v n => ih (hi field hm)) hl hns)
    | sum kind cases =>
      obtain ⟨⟨index, paired⟩, hsel, h⟩ := Except.bind_eq_ok.1 h
      obtain ⟨label, shape, payload, hcase, -, hpair⟩ := SumKind.select_eq_ok hs.1 hsel
      obtain ⟨hlt, -⟩ := List.getElem?_eq_some_iff.1 hcase
      have hindex := hs.1.index_lt hlt
      cases paired with
      | none =>
        cases h
        cases shape with
        | none => exact .bare hcase hindex
        | some shape => cases payload <;> cases hpair
      | some paired =>
        obtain ⟨shape', v'⟩ := paired
        obtain ⟨n, hn, h⟩ := Except.bind_eq_ok.1 h
        cases h
        cases shape with
        | none => cases payload <;> cases hpair
        | some inner =>
          cases payload with
          | none => cases hpair
          | some payload =>
            cases hpair
            have hi := Shape.casesIndexable_iff.1 hs.2 label shape' (List.mem_of_getElem? hcase)
            exact .payload hcase hindex (ih hi hn)
    | unsupported kind title => cases h
    | unresolved cause => cases h

end Abi

end ComponentAbi
