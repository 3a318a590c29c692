/-!
# Decimal numerals

Reading and writing natural numbers in base ten. Only the ten ASCII digits count as digits, and
leading zeros are accepted.
-/

namespace ComponentAbi

namespace Decimal

/-- The value of a digit, `none` for any other character. -/
def digit? (c : Char) : Option Nat :=
  if '0' ≤ c ∧ c ≤ '9' then some (c.toNat - '0'.toNat) else none

/-- The number written by a non-empty sequence of digits. -/
def read? : List Char → Option Nat
  | [] => none
  | cs => cs.foldlM (fun n c => (digit? c).map (10 * n + ·)) 0

/-- A number of at most 64 bits, which may be written with a leading plus sign. -/
def readWord? (s : String) : Option UInt64 :=
  let digits := match s.toList with
    | '+' :: rest => rest
    | cs => cs
  (read? digits).bind fun n => if n < UInt64.size then some (UInt64.ofNat n) else none

end Decimal

end ComponentAbi
