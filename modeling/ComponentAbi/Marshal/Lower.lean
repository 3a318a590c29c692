import ComponentAbi.Marshal.Parts
import ComponentAbi.Memory

/-!
# Lowering values

Passing a value as core words (`Abi.lowerFlat`), or storing it at an address (`Abi.store`). Strings
and lists are copied into new blocks, which their receiver frees.
-/

namespace ComponentAbi

namespace Shape

/-- The payload words of a case in the slots that all cases share; slots that the case does not use
are zero. -/
def fillSlots : List CoreType → List Word → Except AbiError (List Word)
  | [], _ => .ok []
  | slot :: slots, [] => (fillSlots slots []).map (Word.zero slot :: ·)
  | slot :: slots, w :: words => do
    let first ← w.coerce slot
    let more ← fillSlots slots words
    return first :: more

end Shape

/-- Copies a text into a new block and answers its address and length in bytes. An empty text gets
no block. -/
def lowerString (text : String) : MemoryM (Nat × Nat) := do
  let data := text.toUTF8.toList
  let start ← MemoryM.alloc data.length 1
  MemoryM.write start data
  return (start, data.length)

/-- Stores an address and a length. -/
def storePair (pointer : Nat) (pair : Nat × Nat) : MemoryM Unit := do
  MemoryM.writeNat pointer 4 pair.1
  MemoryM.writeNat (pointer + 4) 4 pair.2

namespace Abi

/-- Stores list items in a new block, with `store` for each of them, and answers the address and
the number of items. -/
def lowerItems (abi : Abi) (store : Shape → Value → Nat → MemoryM Unit) (element : TypeId)
    (items : List Value) : MemoryM (Nat × Nat) := do
  let shape := abi.shape element
  let layout ← liftM shape.layout
  let start ← MemoryM.alloc (layout.size * items.length) layout.align
  items.zipIdx.forM fun (item, i) => store shape item (start + i * layout.size)
  return (start, items.length)

/-- Stores a value that is nested less than `depth` deep. -/
def storeWithin (abi : Abi) : Nat → Shape → Value → Nat → MemoryM Unit
  | 0, _, _, _ => throw .unboundedNesting
  | depth + 1, shape, v, pointer =>
    match shape, v with
    | .leaf l, v => do
      let bits ← liftM (l.encode v)
      MemoryM.writeNat pointer l.width bits
    | .string, .string text => do
      storePair pointer (← lowerString text)
    | .list element, .list items => do
      storePair pointer (← abi.lowerItems (abi.storeWithin depth) element items)
    | .product kind fields, v => do
      let parts ← liftM (kind.parts (fields.map (·.1)) v)
      let offsets ← liftM (Shape.fieldOffsets fields)
      ((fields.zip parts).zip offsets).forM fun (((_, field), part), offset) => do
        abi.storeWithin depth field (← liftM part) (pointer + offset)
    | .sum kind cases, v => do
      let (index, payload) ← liftM (kind.select cases v)
      let layout ← liftM (Shape.sumLayout kind cases)
      MemoryM.writeNat pointer layout.discriminantSize index
      match payload with
      | none => return
      | some (shape, v) => abi.storeWithin depth shape v (pointer + layout.payloadOffset)
    | .unresolved cause, _ => throw cause
    | shape, v => throw (kindMismatch shape.kind v)

/-- The words of a value that is nested less than `depth` deep. -/
def lowerWithin (abi : Abi) : Nat → Shape → Value → MemoryM (List Word)
  | 0, _, _ => throw .unboundedNesting
  | depth + 1, shape, v =>
    match shape, v with
    | .leaf l, v => do
      let bits ← liftM (l.encode v)
      return [Word.ofBits l.core bits]
    | .string, .string text => do
      let (start, length) ← lowerString text
      return [Word.ofNat start, Word.ofNat length]
    | .list element, .list items => do
      let (start, length) ← abi.lowerItems (abi.storeWithin depth) element items
      return [Word.ofNat start, Word.ofNat length]
    | .product kind fields, v => do
      let parts ← liftM (kind.parts (fields.map (·.1)) v)
      let words ← (fields.zip parts).mapM fun ((_, field), part) => do
        abi.lowerWithin depth field (← liftM part)
      return words.flatten
    | .sum kind cases, v => do
      let (index, payload) ← liftM (kind.select cases v)
      let slots ← liftM (Shape.flattenCases cases)
      let words ← match payload with
        | none => pure []
        | some (shape, v) => abi.lowerWithin depth shape v
      let filled ← liftM (Shape.fillSlots slots words)
      return Word.ofNat index :: filled
    | .unresolved cause, _ => throw cause
    | shape, v => throw (kindMismatch shape.kind v)

/-- The words that a value of a type is passed as. -/
def lowerFlat (abi : Abi) (id : TypeId) (v : Value) : MemoryM (List Word) :=
  abi.lowerWithin (v.depth + 1) (abi.shape id) v

/-- Stores a value of a type at an address. -/
def store (abi : Abi) (id : TypeId) (v : Value) (pointer : Nat) : MemoryM Unit :=
  abi.storeWithin (v.depth + 1) (abi.shape id) v pointer

/-- Stores list items in a new block and answers its address and the number of items. An empty list
gets no block. -/
def lowerList (abi : Abi) (element : TypeId) (items : List Value) : MemoryM (Nat × Nat) :=
  abi.lowerItems (abi.storeWithin (Value.depths items + 1)) element items

/-- Stores values of the given types in a row. -/
def storeFields (abi : Abi) (ids : List TypeId) (values : List Value) (pointer : Nat) :
    MemoryM Unit := do
  let offsets ← liftM (abi.fieldOffsets ids)
  ((ids.zip values).zip offsets).forM fun ((id, v), offset) => abi.store id v (pointer + offset)

/-- The words that values of the given types in a row are passed as. -/
def lowerAll (abi : Abi) (ids : List TypeId) (values : List Value) : MemoryM (List Word) := do
  let words ← (ids.zip values).mapM fun (id, v) => abi.lowerFlat id v
  return words.flatten

end Abi

end ComponentAbi
