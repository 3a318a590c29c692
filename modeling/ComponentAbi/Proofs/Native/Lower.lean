import ComponentAbi.Marshal.Lower
import ComponentAbi.Proofs.Memory.Run
import ComponentAbi.Proofs.Native.Typing

/-!
# Lowering native values

Storing a native value, and passing it as words, by recursion on the native value. Once a value was
read as a native value, lowering it is lowering what it was read as (`Abi.storeWithin_native`,
`Abi.lowerWithin_native`), and only values that can be read are ever lowered
(`Abi.native_of_storeWithin`, `Abi.native_of_lowerWithin`).
-/

namespace ComponentAbi

namespace Abi

variable (abi : Abi)

/-- Hands out a block for `count` items, has it filled, and answers its address and `count`. -/
def inBlock (element : TypeId) (count : Nat) (fill : List (Shape × Nat) → MemoryM Unit) :
    MemoryM (Nat × Nat) := do
  let layout ← liftM (abi.shape element).layout
  let start ← MemoryM.alloc (layout.size * count) layout.align
  fill (Shape.slots (abi.shape element) start layout.size 0 count)
  return (start, count)

/-- The error for a native value that is not of the type. -/
def misfit (shape : Shape) : AbiError :=
  .typeMismatch shape.kind "another native value"

mutual

/-- Stores a native value at an address. -/
def storeNative : Shape → Native → Nat → MemoryM Unit
  | .leaf l, .atom a, p => do
    let bits ← liftM (l.wordKind.encode a)
    MemoryM.writeNat p l.width bits
  | .string, .text text, p => do
    storePair p (← lowerString text)
  | .list element, .list items, p => do
    storePair p (← abi.inBlock element items.length fun places => storeRow places items)
  | .product _ fields, .product parts, p => do
    let offsets ← liftM (Shape.fieldOffsets fields)
    storeRow (Shape.row fields offsets p) parts
  | .sum kind cases, .sum index payload, p => do
    let layout ← liftM (Shape.sumLayout kind cases)
    MemoryM.writeNat p layout.discriminantSize index
    storePayload (cases[index]?.bind (·.2)) payload (p + layout.payloadOffset)
  | shape, _, _ => throw (misfit shape)
termination_by structural _ n => n

/-- Stores native values in their places, one after the other. -/
def storeRow : List (Shape × Nat) → List Native → MemoryM Unit
  | (shape, p) :: places, n :: rest => do
    storeNative shape n p
    storeRow places rest
  | _, _ => return
termination_by structural _ ns => ns

/-- Stores the payload of a case. -/
def storePayload : Option Shape → Option Native → Nat → MemoryM Unit
  | some shape, some n, p => storeNative shape n p
  | _, _, _ => return
termination_by structural _ payload => payload

end

mutual

/-- The words of a native value. -/
def lowerNative : Shape → Native → MemoryM (List Word)
  | .leaf l, .atom a => do
    let bits ← liftM (l.wordKind.encode a)
    return [Word.ofBits l.core bits]
  | .string, .text text => do
    let (start, length) ← lowerString text
    return [Word.ofNat start, Word.ofNat length]
  | .list element, .list items => do
    let (start, length) ← abi.inBlock element items.length fun places =>
      abi.storeRow places items
    return [Word.ofNat start, Word.ofNat length]
  | .product _ fields, .product parts => lowerRow fields parts
  | .sum _ cases, .sum index payload => do
    let slots ← liftM (Shape.flattenCases cases)
    let words ← lowerPayload (cases[index]?.bind (·.2)) payload
    let filled ← liftM (Shape.fillSlots slots words)
    return Word.ofNat index :: filled
  | shape, _ => throw (misfit shape)
termination_by structural _ n => n

/-- The words of native values in a row. -/
def lowerRow : List (String × Shape) → List Native → MemoryM (List Word)
  | (_, shape) :: fields, n :: rest => do
    let words ← lowerNative shape n
    let more ← lowerRow fields rest
    return words ++ more
  | _, _ => return []
termination_by structural _ ns => ns

/-- The words of the payload of a case. -/
def lowerPayload : Option Shape → Option Native → MemoryM (List Word)
  | some shape, some n => lowerNative shape n
  | _, _ => return []
termination_by structural _ payload => payload

end

end Abi

/-! ### Lowering a value is lowering its native value -/

namespace Abi

variable {abi : Abi} {d : Nat} {s : Shape} {v : Value} {n : Native}

theorem forM_items {items : List Value} {ns : List Native} {size : Nat}
    (hf : ∀ v n, abi.nativeWithin d s v = .ok n → ∀ p,
      abi.storeWithin d s v p = abi.storeNative s n p)
    (h : items.mapM (abi.nativeWithin d s) = .ok ns) (start first : Nat) :
    ((items.zipIdx first).forM fun (item, i) => abi.storeWithin d s item (start + i * size)) =
      abi.storeRow (Shape.slots s start size first ns.length) ns := by
  induction items generalizing ns first with
  | nil => cases h; rfl
  | cons v items ih =>
    obtain ⟨n, ns, hn, hns, rfl⟩ := Except.mapM_cons_eq_ok.1 h
    rw [List.length_cons, Shape.slots, storeRow, ← ih hns (first + 1), ← hf v n hn]
    rfl

theorem lowerItems_native {element : TypeId} {items : List Value} {ns : List Native}
    (hf : ∀ v n, abi.nativeWithin d (abi.shape element) v = .ok n → ∀ p,
      abi.storeWithin d (abi.shape element) v p = abi.storeNative (abi.shape element) n p)
    (h : items.mapM (abi.nativeWithin d (abi.shape element)) = .ok ns) :
    abi.lowerItems (abi.storeWithin d) element items =
      abi.inBlock element ns.length fun places => abi.storeRow places ns := by
  rw [lowerItems, inBlock, Except.length_of_mapM h]
  refine bind_congr fun layout => bind_congr fun start => ?_
  rw [← Except.length_of_mapM h, forM_items hf h start 0]

section Rows

variable {fields : List (String × Shape)} {parts : List (Except AbiError Value)}
  {ns : List Native}

theorem forM_fields {offsets : List Nat} {p : Nat}
    (hf : ∀ field ∈ fields, ∀ v n, abi.nativeWithin d field.2 v = .ok n → ∀ p,
      abi.storeWithin d field.2 v p = abi.storeNative field.2 n p)
    (hl : parts.length = fields.length)
    (h : ((fields.zip parts).mapM fun ((_, field), part) => do
      abi.nativeWithin d field (← part)) = .ok ns) :
    (((fields.zip parts).zip offsets).forM fun (((_, field), part), offset) => do
      abi.storeWithin d field (← liftM part) (p + offset)) =
      abi.storeRow (Shape.row fields offsets p) ns := by
  induction fields generalizing parts ns offsets with
  | nil => cases h; rfl
  | cons field fields ih =>
    cases parts with
    | nil => cases hl
    | cons part parts =>
      obtain ⟨n, ns, hn, hns, rfl⟩ := Except.mapM_cons_eq_ok.1 h
      obtain ⟨v, rfl, hn⟩ := Except.bind_eq_ok.1 hn
      cases offsets with
      | nil => rfl
      | cons offset offsets =>
        rw [show Shape.row (field :: fields) (offset :: offsets) p =
          (field.2, p + offset) :: Shape.row fields offsets p from rfl, storeRow,
          ← hf field List.mem_cons_self v n hn,
          ← ih (fun f hm => hf f (List.mem_cons_of_mem _ hm)) (Nat.succ.inj hl) hns]
        rfl

theorem mapM_fields
    (hf : ∀ field ∈ fields, ∀ v n, abi.nativeWithin d field.2 v = .ok n →
      abi.lowerWithin d field.2 v = abi.lowerNative field.2 n)
    (hl : parts.length = fields.length)
    (h : ((fields.zip parts).mapM fun ((_, field), part) => do
      abi.nativeWithin d field (← part)) = .ok ns) :
    (do
      let words ← (fields.zip parts).mapM fun ((_, field), part) => do
        abi.lowerWithin d field (← liftM part)
      return words.flatten : MemoryM (List Word)) = abi.lowerRow fields ns := by
  induction fields generalizing parts ns with
  | nil => cases h; rfl
  | cons field fields ih =>
    cases parts with
    | nil => cases hl
    | cons part parts =>
      obtain ⟨n, ns, hn, hns, rfl⟩ := Except.mapM_cons_eq_ok.1 h
      obtain ⟨v, rfl, hn⟩ := Except.bind_eq_ok.1 hn
      rw [lowerRow, ← hf field List.mem_cons_self v n hn,
        ← ih (fun f hm => hf f (List.mem_cons_of_mem _ hm)) (Nat.succ.inj hl) hns,
        List.zip_cons_cons, List.mapM_cons]
      simp only [bind_assoc, pure_bind, List.flatten_cons]
      rfl

end Rows

theorem storeWithin_native (h : abi.nativeWithin d s v = .ok n) (p : Nat) :
    abi.storeWithin d s v p = abi.storeNative s n p := by
  induction d generalizing s v n p with
  | zero => cases h
  | succ d ih =>
    cases s with
    | leaf l =>
      obtain ⟨a, ha, rfl⟩ := Except.map_eq_ok.1 h
      rw [storeWithin, storeNative, Leaf.encode_of_atom ha]
    | string =>
      cases v with
      | string text => cases h; rfl
      | _ => cases h
    | list element =>
      cases v with
      | list items =>
        obtain ⟨layout, -, h⟩ := Except.bind_eq_ok.1 h
        obtain ⟨ns, hns, h⟩ := Except.bind_eq_ok.1 h
        cases h
        rw [storeWithin, storeNative, lowerItems_native (fun v n => ih) hns]
      | _ => cases h
    | product kind fields =>
      obtain ⟨parts, hp, h⟩ := Except.bind_eq_ok.1 h
      obtain ⟨ns, hns, h⟩ := Except.bind_eq_ok.1 h
      cases h
      have hl := ProductKind.length_parts hp
      rw [List.length_map] at hl
      rw [storeWithin, storeNative, hp]
      refine (pure_bind _ _).trans (bind_congr fun offsets => ?_)
      exact forM_fields (fun field hm v n hn p => ih hn p) hl hns
    | sum kind cases =>
      obtain ⟨⟨index, paired⟩, hsel, h⟩ := Except.bind_eq_ok.1 h
      cases paired with
      | none =>
        cases h
        rw [storeWithin, storeNative, hsel]
        refine (pure_bind _ _).trans (bind_congr fun layout => bind_congr fun _ => ?_)
        cases (cases[index]?).bind (·.2) <;> rfl
      | some paired =>
        obtain ⟨inner, v'⟩ := paired
        obtain ⟨n, hn, h⟩ := Except.bind_eq_ok.1 h
        cases h
        rw [storeWithin, storeNative, hsel, SumKind.payload_of_select hsel]
        exact (pure_bind _ _).trans (bind_congr fun layout => bind_congr fun _ => ih hn _)
    | unsupported kind title => cases h
    | unresolved cause => cases h

theorem lowerWithin_native (h : abi.nativeWithin d s v = .ok n) :
    abi.lowerWithin d s v = abi.lowerNative s n := by
  induction d generalizing s v n with
  | zero => cases h
  | succ d ih =>
    cases s with
    | leaf l =>
      obtain ⟨a, ha, rfl⟩ := Except.map_eq_ok.1 h
      rw [lowerWithin, lowerNative, Leaf.encode_of_atom ha]
    | string =>
      cases v with
      | string text => cases h; rfl
      | _ => cases h
    | list element =>
      cases v with
      | list items =>
        obtain ⟨layout, -, h⟩ := Except.bind_eq_ok.1 h
        obtain ⟨ns, hns, h⟩ := Except.bind_eq_ok.1 h
        cases h
        rw [lowerWithin, lowerNative, lowerItems_native (fun v n => storeWithin_native) hns]
      | _ => cases h
    | product kind fields =>
      obtain ⟨parts, hp, h⟩ := Except.bind_eq_ok.1 h
      obtain ⟨ns, hns, h⟩ := Except.bind_eq_ok.1 h
      cases h
      have hl := ProductKind.length_parts hp
      rw [List.length_map] at hl
      rw [lowerWithin, lowerNative, hp]
      refine (pure_bind _ _).trans ?_
      exact mapM_fields (fun field hm v n hn => ih hn) hl hns
    | sum kind cases =>
      obtain ⟨⟨index, paired⟩, hsel, h⟩ := Except.bind_eq_ok.1 h
      cases paired with
      | none =>
        cases h
        rw [lowerWithin, lowerNative, hsel]
        refine (pure_bind _ _).trans (bind_congr fun slots => ?_)
        cases (cases[index]?).bind (·.2) <;> rfl
      | some paired =>
        obtain ⟨inner, v'⟩ := paired
        obtain ⟨n, hn, h⟩ := Except.bind_eq_ok.1 h
        cases h
        rw [lowerWithin, lowerNative, hsel, SumKind.payload_of_select hsel]
        exact (pure_bind _ _).trans (bind_congr fun slots => congrArg (· >>= _) (ih hn))
    | unsupported kind title => cases h
    | unresolved cause => cases h

/-! ### Only values that can be read are lowered -/

theorem native_of_lowerItems {element : TypeId} {items : List Value}
    (hf : ∀ v p, (abi.storeWithin d (abi.shape element) v p).Succeeds →
      ∃ n, abi.nativeWithin d (abi.shape element) v = .ok n)
    (h : (abi.lowerItems (abi.storeWithin d) element items).Succeeds) :
    ∃ n, abi.nativeWithin (d + 1) (.list element) (.list items) = .ok n := by
  obtain ⟨layout, hl, h⟩ := h.bind_liftM
  obtain ⟨-, start, h⟩ := h.bind
  have hitems : ∃ ns, items.mapM (abi.nativeWithin d (abi.shape element)) = .ok ns := by
    refine Except.mapM_eq_ok_of_forall fun v hv => ?_
    obtain ⟨i, hi⟩ := List.mem_iff_getElem?.1 hv
    exact hf _ _ (h.bind.1.forM (List.mk_mem_zipIdx_iff_getElem?.2 hi))
  obtain ⟨ns, hns⟩ := hitems
  exact ⟨.list ns, by rw [nativeWithin, hl, hns]; rfl⟩

theorem native_of_storeWithin {p : Nat} (h : (abi.storeWithin d s v p).Succeeds) :
    ∃ n, abi.nativeWithin d s v = .ok n := by
  induction d generalizing s v p with
  | zero => exact absurd h (MemoryM.not_succeeds_throw _)
  | succ d ih =>
    cases s with
    | leaf l =>
      obtain ⟨bits, hb, -⟩ := h.bind_liftM
      obtain ⟨a, ha⟩ := Leaf.atom_of_encode hb
      exact ⟨.atom a, by rw [nativeWithin, ha]; rfl⟩
    | string =>
      cases v with
      | string text => exact ⟨.text text, rfl⟩
      | _ => exact absurd h (MemoryM.not_succeeds_throw _)
    | list element =>
      cases v with
      | list items => exact native_of_lowerItems (fun v p => ih) h.bind.1
      | _ => exact absurd h (MemoryM.not_succeeds_throw _)
    | product kind fields =>
      obtain ⟨parts, hp, h⟩ := h.bind_liftM
      obtain ⟨offsets, ho, h⟩ := h.bind_liftM
      have hlp := ProductKind.length_parts hp
      have hlo := Shape.length_fieldOffsets ho
      rw [List.length_map] at hlp
      have hparts : ∃ ns, ((fields.zip parts).mapM fun ((_, field), part) => do
          abi.nativeWithin d field (← part)) = .ok ns := by
        refine Except.mapM_eq_ok_of_forall fun entry hm => ?_
        have hle : (fields.zip parts).length ≤ offsets.length := by
          rw [List.length_zip]
          omega
        rw [← List.map_fst_zip hle] at hm
        obtain ⟨⟨⟨⟨label, field⟩, part⟩, offset⟩, hplace, rfl⟩ := List.mem_map.1 hm
        obtain ⟨v, rfl, hv⟩ := (h.forM hplace).bind_liftM
        exact ih hv
      obtain ⟨ns, hns⟩ := hparts
      exact ⟨.product ns,
        Except.bind_eq_ok.2 ⟨parts, hp, Except.bind_eq_ok.2 ⟨ns, hns, rfl⟩⟩⟩
    | sum kind cases =>
      obtain ⟨⟨index, paired⟩, hsel, h⟩ := h.bind_liftM
      obtain ⟨layout, -, h⟩ := h.bind_liftM
      obtain ⟨-, -, h⟩ := h.bind
      cases paired with
      | none => exact ⟨.sum index none, by rw [nativeWithin, hsel]; rfl⟩
      | some paired =>
        obtain ⟨n, hn⟩ := ih h
        exact ⟨.sum index (some n),
          Except.bind_eq_ok.2 ⟨_, hsel, Except.bind_eq_ok.2 ⟨n, hn, rfl⟩⟩⟩
    | unsupported kind title => exact absurd h (MemoryM.not_succeeds_throw _)
    | unresolved cause => exact absurd h (MemoryM.not_succeeds_throw _)

theorem native_of_lowerWithin (h : (abi.lowerWithin d s v).Succeeds) :
    ∃ n, abi.nativeWithin d s v = .ok n := by
  induction d generalizing s v with
  | zero => exact absurd h (MemoryM.not_succeeds_throw _)
  | succ d ih =>
    cases s with
    | leaf l =>
      obtain ⟨bits, hb, -⟩ := h.bind_liftM
      obtain ⟨a, ha⟩ := Leaf.atom_of_encode hb
      exact ⟨.atom a, by rw [nativeWithin, ha]; rfl⟩
    | string =>
      cases v with
      | string text => exact ⟨.text text, rfl⟩
      | _ => exact absurd h (MemoryM.not_succeeds_throw _)
    | list element =>
      cases v with
      | list items => exact native_of_lowerItems (fun v p => native_of_storeWithin) h.bind.1
      | _ => exact absurd h (MemoryM.not_succeeds_throw _)
    | product kind fields =>
      obtain ⟨parts, hp, h⟩ := h.bind_liftM
      have hparts : ∃ ns, ((fields.zip parts).mapM fun ((_, field), part) => do
          abi.nativeWithin d field (← part)) = .ok ns := by
        refine Except.mapM_eq_ok_of_forall fun ⟨⟨label, field⟩, part⟩ hm => ?_
        obtain ⟨v, rfl, hv⟩ := (h.bind.1.mapM hm).bind_liftM
        exact ih hv
      obtain ⟨ns, hns⟩ := hparts
      exact ⟨.product ns,
        Except.bind_eq_ok.2 ⟨parts, hp, Except.bind_eq_ok.2 ⟨ns, hns, rfl⟩⟩⟩
    | sum kind cases =>
      obtain ⟨⟨index, paired⟩, hsel, h⟩ := h.bind_liftM
      obtain ⟨slots, -, h⟩ := h.bind_liftM
      cases paired with
      | none => exact ⟨.sum index none, by rw [nativeWithin, hsel]; rfl⟩
      | some paired =>
        obtain ⟨n, hn⟩ := ih h.bind.1
        exact ⟨.sum index (some n),
          Except.bind_eq_ok.2 ⟨_, hsel, Except.bind_eq_ok.2 ⟨n, hn, rfl⟩⟩⟩
    | unsupported kind title => exact absurd h (MemoryM.not_succeeds_throw _)
    | unresolved cause => exact absurd h (MemoryM.not_succeeds_throw _)

theorem flattenFields_of_forall {fields : List (String × Shape)}
    (h : ∀ field ∈ fields, ∃ kinds, field.2.flatten = .ok kinds) :
    ∃ kinds, Shape.flattenFields fields = .ok kinds := by
  induction fields with
  | nil => exact ⟨[], rfl⟩
  | cons field fields ih =>
    obtain ⟨kinds, hk⟩ := h field List.mem_cons_self
    obtain ⟨more, hm⟩ := ih fun field hf => h field (List.mem_cons_of_mem _ hf)
    exact ⟨kinds ++ more, by rw [Shape.flattenFields, hk, hm]; rfl⟩

/-- A value is passed as words only if its type is. -/
theorem flatten_of_lowerWithin (h : (abi.lowerWithin d s v).Succeeds) :
    ∃ kinds, s.flatten = .ok kinds := by
  induction d generalizing s v with
  | zero => exact absurd h (MemoryM.not_succeeds_throw _)
  | succ d ih =>
    cases s with
    | leaf l =>
      obtain ⟨bits, hb, -⟩ := h.bind_liftM
      have hcheck : l.check = .ok () := by
        cases l with
        | flags name labels =>
          cases v with
          | flags set => exact (Except.bind_eq_ok.1 hb).choose_spec.1
          | _ => cases hb
        | _ => rfl
      exact ⟨[l.core], by rw [Shape.flatten, hcheck]; rfl⟩
    | string => exact ⟨_, rfl⟩
    | list element => exact ⟨_, rfl⟩
    | product kind fields =>
      obtain ⟨parts, hp, h⟩ := h.bind_liftM
      have hl := ProductKind.length_parts hp
      rw [List.length_map] at hl
      rw [Shape.flatten]
      refine flattenFields_of_forall fun field hm => ?_
      rw [← List.map_fst_zip (Nat.le_of_eq hl.symm)] at hm
      obtain ⟨⟨⟨label, field⟩, part⟩, hpart, rfl⟩ := List.mem_map.1 hm
      obtain ⟨v, rfl, hv⟩ := (h.bind.1.mapM hpart).bind_liftM
      exact ih hv
    | sum kind cases =>
      obtain ⟨⟨index, paired⟩, -, h⟩ := h.bind_liftM
      obtain ⟨slots, hslots, h⟩ := h.bind_liftM
      exact ⟨.i32 :: slots, by rw [Shape.flatten, hslots]; rfl⟩
    | unsupported kind title => exact absurd h (MemoryM.not_succeeds_throw _)
    | unresolved cause => exact absurd h (MemoryM.not_succeeds_throw _)

end Abi

end ComponentAbi
