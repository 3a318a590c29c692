import ComponentAbi.AbiError
import ComponentAbi.CoreType
import ComponentAbi.Numerals

/-!
# Core words

A word is a kind with that many bits. Casting a word to another kind keeps its low bits and fills
with zeros, so that a cast into a wider slot can be undone.

* `Word.bits_ofBits`, `Word.ofBits_bits`: a word is its kind and its bits.
* `Word.cast_between_join`: casting into a shared slot and back gives the word again.
-/

namespace ComponentAbi

/-- A core word. Floating-point words are bit patterns. -/
inductive Word where
  | i32 (bits : UInt32)
  | i64 (bits : UInt64)
  | f32 (bits : UInt32)
  | f64 (bits : UInt64)
deriving DecidableEq, Repr, Inhabited

namespace Word

/-- The kind of a word. -/
def kind : Word → CoreType
  | i32 _ => .i32
  | i64 _ => .i64
  | f32 _ => .f32
  | f64 _ => .f64

/-- The bits of a word as an unsigned number. -/
def bits : Word → Nat
  | i32 b | f32 b => b.toNat
  | i64 b | f64 b => b.toNat

/-- The word of a kind with the low bits of `n`. -/
def ofBits : CoreType → Nat → Word
  | .i32, n => i32 (UInt32.ofNat n)
  | .i64, n => i64 (UInt64.ofNat n)
  | .f32, n => f32 (UInt32.ofNat n)
  | .f64, n => f64 (UInt64.ofNat n)

/-- The word of a kind with no bit set. -/
def zero (t : CoreType) : Word :=
  ofBits t 0

/-- A pointer, length or index as a word. -/
def ofNat (n : Nat) : Word :=
  ofBits .i32 n

/-- The bits of a word that has to be of kind `t`. -/
def expect (t : CoreType) (w : Word) : Except AbiError Nat :=
  if w.kind = t then .ok w.bits else .error (.typeMismatch t.name w.kind.name)

/-- Reads the bits of a word as another kind. Widening fills with zeros, narrowing keeps the low
bits. -/
def cast (c : Bitcast) (w : Word) : Except AbiError Word :=
  match c.ends with
  | none => .ok w
  | some (source, target) =>
    if w.kind = source then .ok (ofBits target w.bits)
    else .error (.typeMismatch ("operand of " ++ c.title) w.kind.name)

/-- Moves a word into a slot of kind `slot`. -/
def coerce (slot : CoreType) (w : Word) : Except AbiError Word :=
  match Bitcast.between w.kind slot with
  | some c => w.cast c
  | none => .error (.typeMismatch slot.name w.kind.name)

/-- Reads a word of kind `t` back out of the slot `w`. -/
def uncoerce (t : CoreType) (w : Word) : Except AbiError Word :=
  match Bitcast.between t w.kind with
  | some c => w.cast c.inverse
  | none => .error (.typeMismatch t.name w.kind.name)

@[simp] theorem kind_ofBits (t : CoreType) (n : Nat) : (ofBits t n).kind = t := by
  cases t <;> rfl

theorem bits_ofBits (t : CoreType) (n : Nat) : (ofBits t n).bits = n % 256 ^ t.size := by
  cases t <;> simp [ofBits, bits, CoreType.size]

@[simp] theorem ofBits_bits (w : Word) : ofBits w.kind w.bits = w := by
  cases w <;> simp [ofBits, bits, kind]

theorem bits_lt (w : Word) : w.bits < 256 ^ w.kind.size := by
  rw [← ofBits_bits w, bits_ofBits, kind_ofBits]
  exact Nat.mod_lt _ (by cases w.kind <;> decide)

/-- A word survives the way into a slot that its kind shares with another, and back. -/
theorem cast_between_join (w : Word) (t : CoreType) :
    (w.coerce (w.kind.join t) >>= fun slot => slot.uncoerce w.kind) = .ok w := by
  cases w <;> cases t <;>
    simp [coerce, uncoerce, cast, kind, bits, ofBits, CoreType.join, Bitcast.between, Bitcast.ends,
      Bitcast.inverse, bind, Except.bind]

end Word

end ComponentAbi
