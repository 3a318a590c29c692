/-!
# Core types and bit casts

The four kinds of core word, how two kinds share one slot (`CoreType.join`), and the casts that move
a word into a shared slot and back (`Bitcast`).

* `CoreType.join_comm`, `CoreType.join_assoc`, `CoreType.join_self`: sharing does not depend on
  order or repetition.
* `Bitcast.between_join`: a word can always be cast into the slot it shares.
* `Bitcast.between_inverse`: the cast back is the inverse of the cast there.
-/

namespace ComponentAbi

/-- The kinds of core words. -/
inductive CoreType where
  | i32
  | i64
  | f32
  | f64
deriving DecidableEq, Repr, Inhabited

namespace CoreType

/-- The written name of a kind. -/
def name : CoreType → String
  | i32 => "i32"
  | i64 => "i64"
  | f32 => "f32"
  | f64 => "f64"

/-- Size in bytes. -/
def size : CoreType → Nat
  | i32 | f32 => 4
  | i64 | f64 => 8

/-- The kind of a slot shared by two kinds: equal kinds keep theirs, the two 32-bit kinds share an
`i32`, and every other mix shares an `i64`. -/
def join : CoreType → CoreType → CoreType
  | i32, i32 | i32, f32 | f32, i32 => i32
  | f32, f32 => f32
  | f64, f64 => f64
  | _, _ => i64

theorem join_self (a : CoreType) : join a a = a := by
  cases a <;> rfl

theorem join_comm (a b : CoreType) : join a b = join b a := by
  cases a <;> cases b <;> rfl

theorem join_assoc (a b c : CoreType) : join (join a b) c = join a (join b c) := by
  cases a <;> cases b <;> cases c <;> rfl

end CoreType

/-- A way to read the bits of a word as a word of another kind. -/
inductive Bitcast where
  /-- The word stays as it is. -/
  | none
  | f32ToI32
  | i32ToF32
  | i32ToI64
  | i64ToI32
  | f32ToI64
  | i64ToF32
  | f64ToI64
  | i64ToF64
deriving DecidableEq, Repr, Inhabited

namespace Bitcast

/-- The written name of a cast. -/
def name : Bitcast → String
  | none => "none"
  | f32ToI32 => "f32-to-i32"
  | i32ToF32 => "i32-to-f32"
  | i32ToI64 => "i32-to-i64"
  | i64ToI32 => "i64-to-i32"
  | f32ToI64 => "f32-to-i64"
  | i64ToF32 => "i64-to-f32"
  | f64ToI64 => "f64-to-i64"
  | i64ToF64 => "i64-to-f64"

/-- The name of a cast in messages. -/
def title : Bitcast → String
  | none => "None"
  | f32ToI32 => "F32ToI32"
  | i32ToF32 => "I32ToF32"
  | i32ToI64 => "I32ToI64"
  | i64ToI32 => "I64ToI32"
  | f32ToI64 => "F32ToI64"
  | i64ToF32 => "I64ToF32"
  | f64ToI64 => "F64ToI64"
  | i64ToF64 => "I64ToF64"

/-- The kinds a cast goes from and to; the trivial cast works on every kind. -/
def ends : Bitcast → Option (CoreType × CoreType)
  | none => .none
  | f32ToI32 => some (.f32, .i32)
  | i32ToF32 => some (.i32, .f32)
  | i32ToI64 => some (.i32, .i64)
  | i64ToI32 => some (.i64, .i32)
  | f32ToI64 => some (.f32, .i64)
  | i64ToF32 => some (.i64, .f32)
  | f64ToI64 => some (.f64, .i64)
  | i64ToF64 => some (.i64, .f64)

/-- The cast from one kind to another. Kinds that never share a slot with the other in it have
none. -/
def between : CoreType → CoreType → Option Bitcast
  | .i32, .i32 | .i64, .i64 | .f32, .f32 | .f64, .f64 => some none
  | .f32, .i32 => some f32ToI32
  | .i32, .f32 => some i32ToF32
  | .i32, .i64 => some i32ToI64
  | .i64, .i32 => some i64ToI32
  | .f32, .i64 => some f32ToI64
  | .i64, .f32 => some i64ToF32
  | .f64, .i64 => some f64ToI64
  | .i64, .f64 => some i64ToF64
  | .i32, .f64 | .f64, .i32 | .f32, .f64 | .f64, .f32 => .none

/-- The cast in the other direction. -/
def inverse : Bitcast → Bitcast
  | none => none
  | f32ToI32 => i32ToF32
  | i32ToF32 => f32ToI32
  | i32ToI64 => i64ToI32
  | i64ToI32 => i32ToI64
  | f32ToI64 => i64ToF32
  | i64ToF32 => f32ToI64
  | f64ToI64 => i64ToF64
  | i64ToF64 => f64ToI64

theorem between_join (a b : CoreType) : (between a (a.join b)).isSome := by
  cases a <;> cases b <;> rfl

theorem between_inverse (a b : CoreType) : (between a b).map inverse = between b a := by
  cases a <;> cases b <;> rfl

end Bitcast

end ComponentAbi
