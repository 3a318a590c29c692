import ComponentAbi.Marshal.Lift

/-!
# Freeing what a value owns

Finding the blocks of a lowered value again, from its words (`Abi.freeFlat`) or from memory
(`Abi.freeStored`), and freeing them: for a list, what its items own comes before the block of the
items. Payloads and items of types that own no memory are not looked at.
-/

namespace ComponentAbi

namespace MemoryM

/-- Runs a step for the numbers from `first` on, `count` of them, until one fails. -/
def forRange (step : Nat → MemoryM Unit) (first : Nat) : Nat → MemoryM Unit
  | 0 => return
  | count + 1 => do
    step first
    forRange step (first + 1) count

end MemoryM

namespace Abi

/-- Frees what list items own, with `free` for each of them, and then their block. -/
def freeItems (abi : Abi) (free : Shape → Nat → MemoryM Unit) (element : TypeId)
    (pointer length : Nat) : MemoryM Unit := do
  let shape := abi.shape element
  let layout ← liftM shape.layout
  if shape.ownsMemory then
    MemoryM.forRange (fun i => free shape (pointer + i * layout.size)) 0 length
  MemoryM.free pointer (layout.size * length) layout.align

/-- Frees what a stored value owns that is nested less than `depth` deep. -/
def freeStoredWithin (abi : Abi) : Nat → Shape → Nat → MemoryM Unit
  | 0, _, _ => throw .unboundedNesting
  | depth + 1, shape, pointer =>
    match shape with
    | .leaf _ | .unsupported .. => return
    | .string => do
      let (start, length) ← MemoryM.reading (loadPair · pointer)
      MemoryM.free start length 1
    | .list element => do
      let (start, length) ← MemoryM.reading (loadPair · pointer)
      abi.freeItems (abi.freeStoredWithin depth) element start length
    | .product _ fields => do
      let offsets ← liftM (Shape.fieldOffsets fields)
      (fields.zip offsets).forM fun ((_, field), offset) =>
        abi.freeStoredWithin depth field (pointer + offset)
    | .sum kind cases => do
      let layout ← liftM (Shape.sumLayout kind cases)
      let index ← MemoryM.reading (·.readNat pointer layout.discriminantSize)
      let (_, payload) ← liftM (caseAt cases index)
      match payload with
      | none => return
      | some shape => abi.freeStoredWithin depth shape (pointer + layout.payloadOffset)
    | .unresolved cause => throw cause

/-- Frees what the fields of a product own, with `free` for each of them. -/
def freeFieldsWith (free : Shape → WordReader → MemoryM WordReader) :
    List (String × Shape) → WordReader → MemoryM WordReader
  | [], r => return r
  | (_, field) :: rest, r => do freeFieldsWith free rest (← free field r)

/-- Frees what the value in the next words owns that is nested less than `depth` deep. -/
def freeFlatWithin (abi : Abi) : Nat → Shape → WordReader → MemoryM WordReader
  | 0, _, _ => throw .unboundedNesting
  | depth + 1, shape, r =>
    match shape with
    | .leaf _ | .unsupported .. => do
      let kinds ← liftM shape.flatten
      let (_, r) ← liftM (r.take kinds.length)
      return r
    | .string => do
      let (start, r) ← liftM (r.next .i32)
      let (length, r) ← liftM (r.next .i32)
      MemoryM.free start length 1
      return r
    | .list element => do
      let (start, r) ← liftM (r.next .i32)
      let (length, r) ← liftM (r.next .i32)
      abi.freeItems (abi.freeStoredWithin depth) element start length
      return r
    | .product _ fields => freeFieldsWith (abi.freeFlatWithin depth) fields r
    | .sum _ cases => do
      let slots ← liftM (Shape.flattenCases cases)
      let (index, r) ← liftM (r.next .i32)
      let (words, r) ← liftM (r.take slots.length)
      let (_, payload) ← liftM (caseAt cases index)
      match payload with
      | none => return r
      | some shape => do
        if shape.ownsMemory then
          let own ← liftM (do drainSlots words (← shape.flatten))
          let rest ← abi.freeFlatWithin depth shape (.ofList own)
          liftM rest.finish
        return r
    | .unresolved cause => throw cause

/-- Frees every block that the value in exactly the given words owns. -/
def freeFlat (abi : Abi) (id : TypeId) (words : List Word) : MemoryM Unit := do
  let bound := abi.nestingBound (← get)
  let rest ← abi.freeFlatWithin bound (abi.shape id) (.ofList words)
  liftM rest.finish

/-- Frees every block that a stored value owns. The bytes it is stored in are not freed. -/
def freeStored (abi : Abi) (id : TypeId) (pointer : Nat) : MemoryM Unit := do
  abi.freeStoredWithin (abi.nestingBound (← get)) (abi.shape id) pointer

/-- Frees every block that values of the given types own that are stored in a row. -/
def freeFields (abi : Abi) (ids : List TypeId) (pointer : Nat) : MemoryM Unit := do
  let offsets ← liftM (abi.fieldOffsets ids)
  (ids.zip offsets).forM fun (id, offset) => abi.freeStored id (pointer + offset)

end Abi

end ComponentAbi
