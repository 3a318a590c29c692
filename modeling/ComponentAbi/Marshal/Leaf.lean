import ComponentAbi.Shape.Layout
import ComponentAbi.Value
import ComponentAbi.Word

/-!
# Values of single words

A value of a leaf type is written as the bits of one word, and read back from the bits of a word or
of as many bytes as the type has in memory. Reading is lenient: any bits but zero are true, and bits
that the type has no use for are ignored.
-/

namespace ComponentAbi

/-- The error for a value of another kind than the type asks for. -/
def kindMismatch (kind : String) (v : Value) : AbiError :=
  .typeMismatch kind v.kind

/-- The error for a case or flag that is not declared. -/
def unknownLabel (label : String) : AbiError :=
  .typeMismatch "a declared case or flag" ("'" ++ label ++ "'")

namespace Scalar

/-- The bits of a value of the scalar type. Signed numbers are extended to the whole word. -/
def encode : Scalar → Value → Except AbiError Nat
  | bool, .bool b => .ok b.toNat
  | u8, .u8 n => .ok n.toNat
  | u16, .u16 n => .ok n.toNat
  | u32, .u32 n => .ok n.toNat
  | u64, .u64 n => .ok n.toNat
  | s8, .s8 n => .ok n.toInt32.toUInt32.toNat
  | s16, .s16 n => .ok n.toInt32.toUInt32.toNat
  | s32, .s32 n => .ok n.toUInt32.toNat
  | s64, .s64 n => .ok n.toUInt64.toNat
  | f32, .f32 bits => .ok bits.toNat
  | f64, .f64 bits => .ok bits.toNat
  | char, .char c => .ok c.toNat
  | s, v => .error (kindMismatch s.keyword v)

/-- The value of the scalar type that some bits stand for. Numbers take their low bits. -/
def decode : Scalar → Nat → Except AbiError Value
  | bool, n => .ok (.bool (n ≠ 0))
  | u8, n => .ok (.u8 (UInt8.ofNat n))
  | u16, n => .ok (.u16 (UInt16.ofNat n))
  | u32, n => .ok (.u32 (UInt32.ofNat n))
  | u64, n => .ok (.u64 (UInt64.ofNat n))
  | s8, n => .ok (.s8 (UInt8.ofNat n).toInt8)
  | s16, n => .ok (.s16 (UInt16.ofNat n).toInt16)
  | s32, n => .ok (.s32 (UInt32.ofNat n).toInt32)
  | s64, n => .ok (.s64 (UInt64.ofNat n).toInt64)
  | f32, n => .ok (.f32 (UInt32.ofNat n))
  | f64, n => .ok (.f64 (UInt64.ofNat n))
  | char, n => if n.isValidChar then .ok (.char (Char.ofNat n)) else .error (.invalidChar n)

end Scalar

namespace Leaf

/-- The bits of a set of flags: bit `i` is set if the set has the label at position `i`. -/
def flagBits (labels : List String) : List String → Except AbiError Nat
  | [] => .ok 0
  | label :: rest =>
    match labels.idxOf? label with
    | none => .error (unknownLabel label)
    | some i => (flagBits labels rest).map fun bits => 2 ^ i ||| bits

/-- The labels whose bits are set. -/
def setFlags (labels : List String) (bits : Nat) : List String :=
  (labels.zipIdx.filter fun (_, i) => bits.testBit i).map (·.1)

/-- The bits of a value of the leaf type. -/
def encode : Leaf → Value → Except AbiError Nat
  | scalar s, v => s.encode v
  | enum cases, .enum label =>
    match cases.idxOf? label with
    | some i => .ok i
    | none => .error (unknownLabel label)
  | flags name labels, .flags set => do
    (flags name labels).check
    flagBits labels set
  | own, .own handle => .ok handle.toNat
  | borrow, .borrow handle => .ok handle.toNat
  | l, v => .error (kindMismatch l.kind v)

/-- The value of the leaf type that some bits stand for. -/
def decode : Leaf → Nat → Except AbiError Value
  | scalar s, n => s.decode n
  | enum cases, n =>
    match cases[n]? with
    | some label => .ok (.enum label)
    | none => .error (.invalidDiscriminant n cases.length)
  | flags name labels, n => do
    (flags name labels).check
    return .flags (setFlags labels n)
  | own, n => .ok (.own (UInt32.ofNat n))
  | borrow, n => .ok (.borrow (UInt32.ofNat n))

end Leaf

end ComponentAbi
