import ComponentAbi.Alignment
import ComponentAbi.Shape.Flatten

/-!
# Memory layout

Size and alignment of a type in memory, the offsets of fields in a row, and the placement of the
case index and the payload of a sum.
-/

namespace ComponentAbi

/-- Size and alignment in bytes. -/
structure Layout where
  /-- Number of bytes, a multiple of the alignment. -/
  size : Nat
  /-- The alignment, a power of two. -/
  align : Nat
deriving DecidableEq, Repr, Inhabited

/-- The placement of a sum in memory. -/
structure SumLayout where
  /-- Size of the case index, which comes first. -/
  discriminantSize : Nat
  /-- Where every payload starts. -/
  payloadOffset : Nat
  /-- Number of bytes of the whole. -/
  size : Nat
  /-- Alignment of the whole. -/
  align : Nat
deriving DecidableEq, Repr

namespace Layout

/-- Where each of some fields starts when they are placed one after the other from `offset` on. -/
def offsetsFrom (offset : Nat) : List Layout → List Nat
  | [] => []
  | l :: rest => alignUp offset l.align :: offsetsFrom (alignUp offset l.align + l.size) rest

/-- Where each of some fields in a row starts. -/
def offsets (fields : List Layout) : List Nat :=
  offsetsFrom 0 fields

/-- Where fields that are placed one after the other from `offset` on end. -/
def endFrom (offset : Nat) : List Layout → Nat
  | [] => offset
  | l :: rest => endFrom (alignUp offset l.align + l.size) rest

/-- The greatest alignment, at least `least`. -/
def maxAlign (least : Nat) (layouts : List Layout) : Nat :=
  layouts.foldl (fun align l => max align l.align) least

/-- The greatest size. -/
def maxSize (layouts : List Layout) : Nat :=
  layouts.foldl (fun size l => max size l.size) 0

/-- The layout of fields in a row. Without fields, the size is 0 and the alignment 1. -/
def sequence (fields : List Layout) : Layout :=
  let align := maxAlign 1 fields
  { size := alignUp (endFrom 0 fields) align, align }

/-- The placement of a sum whose case index has `discriminantSize` bytes, from the layouts of its
payloads. -/
def tagged (discriminantSize : Nat) (payloads : List Layout) : SumLayout :=
  let align := maxAlign discriminantSize payloads
  let payloadOffset := alignUp discriminantSize align
  { discriminantSize, payloadOffset, size := alignUp (payloadOffset + maxSize payloads) align,
    align }

end Layout

namespace SumLayout

/-- Size and alignment of the whole. -/
def layout (l : SumLayout) : Layout :=
  { size := l.size, align := l.align }

end SumLayout

namespace Scalar

/-- Number of bytes of a scalar in memory, which is also its alignment. -/
def width : Scalar → Nat
  | bool | u8 | s8 => 1
  | u16 | s16 => 2
  | u32 | s32 | f32 | char => 4
  | u64 | s64 | f64 => 8

end Scalar

namespace Leaf

/-- Number of bytes of a leaf in memory, which is also its alignment. -/
def width : Leaf → Nat
  | scalar s => s.width
  | enum _ | flags .. | own | borrow => 4

end Leaf

namespace Shape

mutual

/-- Size and alignment of a shape. -/
def layout : Shape → Except AbiError Layout
  | leaf l => l.check.map fun _ => { size := l.width, align := l.width }
  | string | list _ => .ok { size := 8, align := 4 }
  | product _ fields => (fieldLayouts fields).map Layout.sequence
  | sum kind cases =>
    (payloadLayouts cases).map fun payloads => (Layout.tagged kind.discriminantSize payloads).layout
  | unsupported _ title => .error (unsupportedError title)
  | unresolved cause => .error cause
termination_by structural s => s

/-- The layout of each field. -/
def fieldLayouts : List (String × Shape) → Except AbiError (List Layout)
  | [] => .ok []
  | (_, field) :: rest => do
    let first ← field.layout
    let more ← fieldLayouts rest
    return first :: more
termination_by structural fields => fields

/-- The layout of each payload, leaving out the cases that have none. -/
def payloadLayouts : List (String × Option Shape) → Except AbiError (List Layout)
  | [] => .ok []
  | (_, none) :: rest => payloadLayouts rest
  | (_, some payload) :: rest => do
    let first ← payload.layout
    let more ← payloadLayouts rest
    return first :: more
termination_by structural cases => cases

end

/-- Where each of some fields in a row starts. -/
def fieldOffsets (fields : List (String × Shape)) : Except AbiError (List Nat) :=
  (fieldLayouts fields).map Layout.offsets

/-- The placement of the case index and the payloads of a sum. -/
def sumLayout (kind : SumKind) (cases : List (String × Option Shape)) :
    Except AbiError SumLayout :=
  (payloadLayouts cases).map (Layout.tagged kind.discriminantSize)

mutual

/-- Passing a value of the shape may need a block of memory: it has a string or a list in it. -/
def ownsMemory : Shape → Bool
  | string | list _ => true
  | product _ fields => fieldsOwnMemory fields
  | sum _ cases => casesOwnMemory cases
  | leaf _ | unsupported .. | unresolved _ => false
termination_by structural s => s

/-- One of the fields may need a block of memory. -/
def fieldsOwnMemory : List (String × Shape) → Bool
  | [] => false
  | (_, field) :: rest => field.ownsMemory || fieldsOwnMemory rest
termination_by structural fields => fields

/-- One of the payloads may need a block of memory. -/
def casesOwnMemory : List (String × Option Shape) → Bool
  | [] => false
  | (_, none) :: rest => casesOwnMemory rest
  | (_, some payload) :: rest => payload.ownsMemory || casesOwnMemory rest
termination_by structural cases => cases

end

end Shape

namespace Abi

/-- Unnamed fields of the given types. -/
def fieldsOf (abi : Abi) (ids : List TypeId) : List (String × Shape) :=
  ids.map fun id => ("", abi.shape id)

/-- Size and alignment of a type. -/
def layout (abi : Abi) (id : TypeId) : Except AbiError Layout :=
  (abi.shape id).layout

/-- Size and alignment of values of the given types in a row. -/
def sequenceLayout (abi : Abi) (ids : List TypeId) : Except AbiError Layout :=
  (Shape.fieldLayouts (abi.fieldsOf ids)).map Layout.sequence

/-- Where each of the values of the given types in a row starts. -/
def fieldOffsets (abi : Abi) (ids : List TypeId) : Except AbiError (List Nat) :=
  Shape.fieldOffsets (abi.fieldsOf ids)

/-- The placement of an option, result or variant. -/
def sumLayout (abi : Abi) (id : TypeId) : Except AbiError SumLayout :=
  match abi.shape id with
  | .sum kind cases => Shape.sumLayout kind cases
  | .unresolved cause => .error cause
  | other => .error (.typeMismatch "option, result or variant" other.kind)

end Abi

end ComponentAbi
