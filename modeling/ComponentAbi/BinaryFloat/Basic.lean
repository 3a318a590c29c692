import ComponentAbi.Numerals

/-!
# Binary floating-point numbers

Floating-point formats, the value that the bits of a number stand for, and rounding of an exact
quotient to the nearest number of a format. Signs are kept apart: all numbers here are at least
zero, and numbers are their bits.

* `divNearest_le`, `le_divNearest`: rounding a quotient to an integer is off by at most a half.
-/

namespace ComponentAbi

/-- The nearest integer to `n / d`, and of two equally near ones the even one. -/
def divNearest (n d : Nat) : Nat :=
  let q := n / d
  let r := n % d
  if 2 * r < d ∨ (2 * r = d ∧ q % 2 = 0) then q else q + 1

theorem divNearest_le (n d : Nat) (pos : 0 < d) : 2 * (divNearest n d * d) ≤ 2 * n + d := by
  have split := Nat.div_add_mod' n d
  have rem := Nat.mod_lt n pos
  simp only [divNearest]
  split
  · omega
  · rw [Nat.add_mul]
    omega

theorem le_divNearest (n d : Nat) (pos : 0 < d) : 2 * n ≤ 2 * (divNearest n d * d) + d := by
  have split := Nat.div_add_mod' n d
  have rem := Nat.mod_lt n pos
  simp only [divNearest]
  split
  · omega
  · rw [Nat.add_mul]
    omega

/-- A binary floating-point format. -/
structure FloatFormat where
  /-- Number of fraction bits. -/
  fractionBits : Nat
  /-- Number of exponent bits. -/
  exponentBits : Nat
deriving DecidableEq, Repr

namespace FloatFormat

/-- The format of 32 bits. -/
def single : FloatFormat := ⟨23, 8⟩

/-- The format of 64 bits. -/
def double : FloatFormat := ⟨52, 11⟩

variable (f : FloatFormat)

/-- Number of bits without the sign. -/
def magnitudeBits : Nat :=
  f.fractionBits + f.exponentBits

/-- The bits of infinity; greater bits are not numbers. -/
def infinity : Nat :=
  (2 ^ f.exponentBits - 1) * 2 ^ f.fractionBits

/-- The exponent of two of the last fraction bit of the smallest numbers. -/
def minExponent : Int :=
  2 - 2 ^ (f.exponentBits - 1) - f.fractionBits

/-- The value of a finite number as significand and exponent of two. -/
def decode (bits : Nat) : Nat × Int :=
  let biased := bits / 2 ^ f.fractionBits
  let fraction := bits % 2 ^ f.fractionBits
  if biased = 0 then (fraction, f.minExponent)
  else (2 ^ f.fractionBits + fraction, f.minExponent + (biased - 1))

/-- The value of a finite number as a quotient. -/
def toRatio (bits : Nat) : Nat × Nat :=
  let (significand, exponent) := f.decode bits
  (significand * 2 ^ exponent.toNat, 2 ^ (-exponent).toNat)

/-- The nearest number to `num / den`, and of two equally near ones the one with an even fraction.
Quotients beyond the greatest number become infinity. -/
def ofRatio (num den : Nat) : Nat :=
  if num = 0 then 0
  else
    let scaled (e : Int) : Nat × Nat := (num * 2 ^ (-e).toNat, den * 2 ^ e.toNat)
    let below : Int := (num.log2 : Int) - den.log2 - f.fractionBits - 1
    let (n, d) := scaled below
    let fitting := if n / d ≥ 2 ^ (f.fractionBits + 1) then below + 1 else below
    let exponent := max fitting f.minExponent
    let (n, d) := scaled exponent
    min ((exponent - f.minExponent).toNat * 2 ^ f.fractionBits + divNearest n d) f.infinity

/-- The rounded product of two finite numbers. -/
def mul (a b : Nat) : Nat :=
  let (an, ad) := f.toRatio a
  let (bn, bd) := f.toRatio b
  f.ofRatio (an * bn) (ad * bd)

/-- The rounded quotient of a finite number by one that is not zero. -/
def div (a b : Nat) : Nat :=
  let (an, ad) := f.toRatio a
  let (bn, bd) := f.toRatio b
  f.ofRatio (an * bd) (ad * bn)

/-- The bits with a sign. -/
def signed (negative : Bool) (bits : Nat) : Nat :=
  if negative then 2 ^ f.magnitudeBits + bits else bits

/-- The nearest number of the format `g` to a finite number with a sign. -/
def convert (g : FloatFormat) (bits : Nat) : Nat :=
  let magnitude := bits % 2 ^ f.magnitudeBits
  let (num, den) := f.toRatio magnitude
  g.signed (magnitude < bits) (g.ofRatio num den)

end FloatFormat

end ComponentAbi
