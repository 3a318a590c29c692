import ComponentAbi.Marshal.Parts
import ComponentAbi.Marshal.WordReader
import ComponentAbi.Memory

/-!
# Lifting values

Reading a value back from core words (`Abi.liftFlat`) or from an address (`Abi.load`). The words and
the memory may come from anywhere: whatever they hold, the answer is a value of the type or an
error.

Memory can make a list an element of itself, in which case reading it would never end. An element
that is read while it is being read already is such a case, so the depth of a reading that ends is
bounded by the number of types and addresses.
-/

namespace ComponentAbi

/-- The text of the given bytes in memory. -/
def liftString (m : Memory) (pointer length : Nat) : Except AbiError String := do
  let data ← m.read pointer length
  match String.fromUTF8? ⟨data.toArray⟩ with
  | some text => return text
  | none => throw .invalidUtf8

/-- Reads an address and a length. -/
def loadPair (m : Memory) (pointer : Nat) : Except AbiError (Nat × Nat) := do
  let start ← m.readNat pointer 4
  let length ← m.readNat (pointer + 4) 4
  return (start, length)

/-- The case of an index that was read. -/
def caseAt {α : Type} (cases : List α) (index : Nat) : Except AbiError α :=
  match cases[index]? with
  | some c => .ok c
  | none => .error (.invalidDiscriminant index cases.length)

/-- The words of a payload, read out of the slots that it shares with other payloads. -/
def drainSlots : List Word → List CoreType → Except AbiError (List Word)
  | w :: slots, t :: kinds => do
    let first ← w.uncoerce t
    let more ← drainSlots slots kinds
    return first :: more
  | _, _ => .ok []

/-- The bytes that list items take. An item without size counts as one byte. The size of an item
must fit a word, whether there are any items or not. -/
def itemBytes (m : Memory) (pointer size length : Nat) : Except AbiError Nat :=
  let stride := max size 1
  if stride < UInt32.size ∧ stride * length < UInt32.size then
    .ok (stride * length)
  else
    .error (.invalidMemoryPointer pointer (UInt32.size - 1) m.size)

theorem itemBytes_eq_ok {m : Memory} {pointer size length total : Nat} :
    itemBytes m pointer size length = .ok total ↔
      max size 1 < UInt32.size ∧ max size 1 * length < UInt32.size ∧
        total = max size 1 * length := by
  rw [itemBytes, ← and_assoc]
  by_cases h : max size 1 < UInt32.size ∧ max size 1 * length < UInt32.size
  · rw [if_pos h, Except.ok.injEq, and_iff_right h, eq_comm]
  · rw [if_neg h]
    exact iff_of_false nofun fun hok => h hok.1

namespace Abi

/-- Loads list items, with `load` for each of them. All of their memory must be readable before the
first is loaded. -/
def loadItems (abi : Abi) (m : Memory) (load : Shape → Nat → Except AbiError Value)
    (element : TypeId) (pointer length : Nat) : Except AbiError (List Value) := do
  let shape := abi.shape element
  let size := (← shape.layout).size
  let total ← itemBytes m pointer size length
  let _ ← m.read pointer total
  (List.range length).mapM fun i => load shape (pointer + i * size)

/-- Loads a value that is nested less than `depth` deep. -/
def loadWithin (abi : Abi) (m : Memory) : Nat → Shape → Nat → Except AbiError Value
  | 0, _, _ => .error .unboundedNesting
  | depth + 1, shape, pointer =>
    match shape with
    | .leaf l => do l.decode (← m.readNat pointer l.width)
    | .string => do
      let (start, length) ← loadPair m pointer
      return .string (← liftString m start length)
    | .list element => do
      let (start, length) ← loadPair m pointer
      return .list (← abi.loadItems m (abi.loadWithin m depth) element start length)
    | .product kind fields => do
      let offsets ← Shape.fieldOffsets fields
      let values ← (fields.zip offsets).mapM fun ((_, field), offset) =>
        abi.loadWithin m depth field (pointer + offset)
      return kind.build (fields.map (·.1)) values
    | .sum kind cases => do
      let layout ← Shape.sumLayout kind cases
      let index ← m.readNat pointer layout.discriminantSize
      let (label, payload) ← caseAt cases index
      match payload with
      | none => return kind.build index label none
      | some shape =>
        return kind.build index label
          (some (← abi.loadWithin m depth shape (pointer + layout.payloadOffset)))
    | .unsupported _ title => .error (Shape.unsupportedError title)
    | .unresolved cause => .error cause

/-- Reads the fields of a product one after the other, with `read` for each of them. -/
def readFields (read : Shape → WordReader → Except AbiError (Value × WordReader)) :
    List (String × Shape) → WordReader → Except AbiError (List Value × WordReader)
  | [], r => .ok ([], r)
  | (_, field) :: rest, r => do
    let (v, r) ← read field r
    let (vs, r) ← readFields read rest r
    return (v :: vs, r)

/-- Reads a value that is nested less than `depth` deep from the next words. -/
def readWithin (abi : Abi) (m : Memory) :
    Nat → Shape → WordReader → Except AbiError (Value × WordReader)
  | 0, _, _ => .error .unboundedNesting
  | depth + 1, shape, r =>
    match shape with
    | .leaf l => do
      let (bits, r) ← r.next l.core
      return (← l.decode bits, r)
    | .string => do
      let (start, r) ← r.next .i32
      let (length, r) ← r.next .i32
      return (.string (← liftString m start length), r)
    | .list element => do
      let (start, r) ← r.next .i32
      let (length, r) ← r.next .i32
      return (.list (← abi.loadItems m (abi.loadWithin m depth) element start length), r)
    | .product kind fields => do
      let (values, r) ← readFields (abi.readWithin m depth) fields r
      return (kind.build (fields.map (·.1)) values, r)
    | .sum kind cases => do
      let slots ← Shape.flattenCases cases
      let (index, r) ← r.next .i32
      let (words, r) ← r.take slots.length
      let (label, payload) ← caseAt cases index
      match payload with
      | none => return (kind.build index label none, r)
      | some shape => do
        let own ← drainSlots words (← shape.flatten)
        let (v, rest) ← abi.readWithin m depth shape (.ofList own)
        rest.finish
        return (kind.build index label (some v), r)
    | .unsupported _ title => .error (Shape.unsupportedError title)
    | .unresolved cause => .error cause

/-- A bound on how deeply a reading that ends is nested. Between two lists there are no more steps
than types, and a chain of lists that are not inside themselves has a different type or address at
every list. -/
def nestingBound (abi : Abi) (m : Memory) : Nat :=
  (abi.arena.size * (m.size + 1) + 2) * (abi.arena.size + 2)

/-- The value of a type that exactly the given words stand for. -/
def liftFlat (abi : Abi) (m : Memory) (id : TypeId) (words : List Word) :
    Except AbiError Value := do
  let (v, rest) ← abi.readWithin m (abi.nestingBound m) (abi.shape id) (.ofList words)
  rest.finish
  return v

/-- The value of a type that is stored at an address. -/
def load (abi : Abi) (m : Memory) (id : TypeId) (pointer : Nat) : Except AbiError Value :=
  abi.loadWithin m (abi.nestingBound m) (abi.shape id) pointer

/-- List items that are stored at an address. -/
def liftList (abi : Abi) (m : Memory) (element : TypeId) (pointer length : Nat) :
    Except AbiError (List Value) :=
  abi.loadItems m (abi.loadWithin m (abi.nestingBound m)) element pointer length

/-- Values of the given types that are stored in a row. -/
def loadFields (abi : Abi) (m : Memory) (ids : List TypeId) (pointer : Nat) :
    Except AbiError (List Value) := do
  let offsets ← abi.fieldOffsets ids
  (ids.zip offsets).mapM fun (id, offset) => abi.load m id (pointer + offset)

end Abi

end ComponentAbi
