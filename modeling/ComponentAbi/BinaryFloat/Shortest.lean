import ComponentAbi.BinaryFloat.Basic

/-!
# Shortest decimals

The decimal with the fewest digits that reads back as a given floating-point number, and of several
with that many digits the nearest. The decimals that read back as a number are those between the
points halfway to its neighbours; the two points themselves read back as the number with the even
fraction.
-/

namespace ComponentAbi

namespace FloatFormat

/-- The decimals that read back as some number: those between `low / den` and `high / den`, with
the ends if `closed`. The number itself is `mid / den`. -/
structure ReadBack where
  /-- Numerator of the lower end. -/
  low : Nat
  /-- Numerator of the number. -/
  mid : Nat
  /-- Numerator of the upper end. -/
  high : Nat
  /-- The denominator. -/
  den : Nat
  /-- The ends belong to the range. -/
  closed : Bool
deriving Repr

/-- The decimals that read back as a finite number that is not zero. At a power of two the
neighbour below is only half as far away. -/
def readBack (f : FloatFormat) (bits : Nat) : ReadBack :=
  let (significand, exponent) := f.decode bits
  let nearerBelow := significand = 2 ^ f.fractionBits ∧ f.minExponent < exponent
  let scale := 2 ^ (exponent - 2).toNat
  { low := (4 * significand - if nearerBelow then 1 else 2) * scale
    mid := 4 * significand * scale
    high := (4 * significand + 2) * scale
    den := 2 ^ (2 - exponent).toNat
    closed := significand % 2 = 0 }

namespace ReadBack

/-- `n / step` lies in the range, whose ends were scaled to `low` and `high`. -/
def contains (r : ReadBack) (low high n : Nat) : Bool :=
  if r.closed then low ≤ n && n ≤ high else low < n && n < high

/-- The nearest multiple of `10 ^ k` in the range, divided by `10 ^ k`. Only the two multiples next
to the number can be the nearest. -/
def onGrid (r : ReadBack) (k : Int) : Option Nat :=
  let scale := 10 ^ (-k).toNat
  let step := r.den * 10 ^ k.toNat
  let (low, mid, high) := (r.low * scale, r.mid * scale, r.high * scale)
  let below := mid / step
  let rest := mid % step
  match r.contains low high (below * step), r.contains low high ((below + 1) * step) with
  | true, true =>
    if 2 * rest < step ∨ (2 * rest = step ∧ below % 2 = 0) then some below else some (below + 1)
  | true, false => some below
  | false, true => some (below + 1)
  | false, false => none

/-- The decimal on the coarsest grid that has one in the range, looking at grids from `10 ^ k`
downwards. -/
def coarsest (r : ReadBack) : Nat → Int → Nat × Int
  | 0, k => (0, k)
  | steps + 1, k =>
    match r.onGrid k with
    | some digits => (digits, k)
    | none => coarsest r steps (k - 1)

end ReadBack

/-- The shortest decimal of a finite number that is not zero, as its digits and an exponent of ten.
The search starts above the number, and ends at the latest where the grid is finer than the
denominator. -/
def shortest (f : FloatFormat) (bits : Nat) : List Char × Int :=
  let r := f.readBack bits
  let places (n : Nat) := (Nat.toDigits 10 n).length
  let (digits, k) :=
    r.coarsest (places r.mid + places r.den + 3) ((places r.mid : Int) - places r.den + 1)
  (Nat.toDigits 10 digits, k)

end FloatFormat

end ComponentAbi
