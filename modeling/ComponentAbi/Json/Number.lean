import ComponentAbi.BinaryFloat.Shortest
import ComponentAbi.Json.Basic
import ComponentAbi.Text.Decimal

/-!
# Numbers in JSON text

A written number is a 64-bit integer if it has neither fraction nor exponent and fits, and a
floating-point number otherwise. Digits that do not fit 64 bits are dropped, and the remaining
significand is multiplied or divided by one power of ten, so that long numerals may be read a little
off the nearest number.

Floating-point numbers are written with the fewest digits that read back as a number of 64 bits,
also where they come from a narrower format.
-/

namespace ComponentAbi

/-- What a written number stands for. -/
inductive JsonNumber where
  /-- An integer of at most 64 bits, with sign. -/
  | integer (n : Int)
  /-- A floating-point number of 64 bits, as its bits. -/
  | float (bits : Nat)
deriving DecidableEq, Repr

namespace Numeral

/-! ### Reading -/

/-- Appends digits to a significand as long as it fits 64 bits. Answers the significand and how many
digits were appended. -/
def appendDigits (significand : Nat) : List Char → Nat × Nat
  | [] => (significand, 0)
  | c :: rest =>
    let next := 10 * significand + (Decimal.digit? c).getD 0
    if next < UInt64.size then
      let (n, appended) := appendDigits next rest
      (n, appended + 1)
    else (significand, 0)

/-- Multiplies a number by a power of ten; `none` if the product is too great. Powers beyond the
greatest one of the format are taken in steps. -/
def scaleByTen (bits : Nat) : Nat → Int → Option Nat
  | 0, _ => some bits
  | steps + 1, exponent =>
    let power (e : Nat) := FloatFormat.double.ofRatio (10 ^ e) 1
    if exponent.natAbs ≤ 308 then
      if exponent < 0 then some (FloatFormat.double.div bits (power exponent.natAbs))
      else
        let product := FloatFormat.double.mul bits (power exponent.natAbs)
        if product = FloatFormat.double.infinity then none else some product
    else if bits = 0 then some 0
    else if exponent < 0 then
      scaleByTen (FloatFormat.double.div bits (power 308)) steps (exponent + 308)
    else none

/-- What a number stands for; `none` if it is too great for a floating-point number. -/
def value? (n : Numeral) : Option JsonNumber :=
  let whole := n.whole.toList
  let (significand, taken) := appendDigits 0 whole
  let dropped := whole.length - taken
  if n.fraction.isNone && n.exponent.isNone && dropped == 0 && !n.negative then
    some (.integer significand)
  else if n.fraction.isNone && n.exponent.isNone && dropped == 0 && significand != 0
      && significand ≤ 2 ^ (63 : Nat) then
    some (.integer (-significand))
  else
    let (significand, places) := appendDigits significand ((n.fraction.getD "").toList)
    let exponent : Int := dropped - places + n.exponent.getD 0
    let start := FloatFormat.double.ofRatio significand 1
    (scaleByTen start (exponent.natAbs + 1) exponent).map fun bits =>
      .float (FloatFormat.double.signed n.negative bits)

/-! ### Writing -/

/-- How floating-point numbers are written. -/
structure FloatText where
  /-- Numbers whose first digit is at most this many places after the point have no exponent. -/
  leadingZeros : Nat
  /-- Numbers with at most this many digits before the point have no exponent. -/
  wholeDigits : Nat
deriving Repr

/-- Numbers have no exponent from 0.00001 up to 16 digits before the point. -/
def floatText : FloatText := { leadingZeros := 4, wholeDigits := 16 }

/-- The written form of a decimal. There is always a digit after the point, unless there is an
exponent. -/
def ofDecimal (style : FloatText) (negative : Bool) (digits : List Char) (exponent : Int) :
    Numeral :=
  let zeros (n : Int) := List.replicate n.toNat '0'
  let point := digits.length + exponent
  if 0 < point ∧ point ≤ style.wholeDigits then
    let fraction := digits.drop point.toNat
    { negative, whole := String.ofList ((digits ++ zeros exponent).take point.toNat)
      fraction := some (if fraction.isEmpty then "0" else String.ofList fraction) }
  else if point ≤ 0 ∧ -point ≤ style.leadingZeros then
    { negative, whole := "0", fraction := some (String.ofList (zeros (-point) ++ digits)) }
  else
    { negative, whole := String.ofList (digits.take 1)
      fraction := if digits.length ≤ 1 then none else some (String.ofList (digits.drop 1))
      exponent := some (point - 1) }

/-- The written form of a floating-point number; `none` for infinities and what is not a number. -/
def ofFloat (f : FloatFormat) (bits : Nat) : Option Numeral :=
  if f.infinity ≤ bits % 2 ^ f.magnitudeBits then none
  else
    let wide := f.convert .double bits
    let magnitude := wide % 2 ^ FloatFormat.double.magnitudeBits
    let negative : Bool := magnitude < wide
    if magnitude = 0 then some { negative, whole := "0", fraction := some "0" }
    else
      let (digits, exponent) := FloatFormat.double.shortest magnitude
      some (ofDecimal floatText negative digits exponent)

end Numeral

namespace Json

/-- A floating-point number of 64 bits; null if it is not finite. -/
def double (bits : UInt64) : Json :=
  ((Numeral.ofFloat .double bits.toNat).map number).getD null

/-- A floating-point number of 32 bits; null if it is not finite. -/
def single (bits : UInt32) : Json :=
  ((Numeral.ofFloat .single bits.toNat).map number).getD null

end Json

end ComponentAbi
