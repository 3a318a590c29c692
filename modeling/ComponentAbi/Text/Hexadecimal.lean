/-!
# Hexadecimal numerals

Digits in base sixteen, and characters that are written by their code.
-/

namespace ComponentAbi

namespace Hexadecimal

/-- The value of a digit, `none` for any other character. Letters may be of either case. -/
def digit? (c : Char) : Option Nat :=
  if '0' ≤ c ∧ c ≤ '9' then some (c.toNat - '0'.toNat)
  else if 'a' ≤ c ∧ c ≤ 'f' then some (c.toNat - 'a'.toNat + 10)
  else if 'A' ≤ c ∧ c ≤ 'F' then some (c.toNat - 'A'.toNat + 10)
  else none

/-- A digit. -/
def isDigit (c : Char) : Bool :=
  (digit? c).isSome

/-- The number that the first `count` characters write, all of which must be digits. -/
def read? (count : Nat) (cs : List Char) : Option Nat := do
  let digits := cs.take count
  if digits.length < count then none
  digits.foldlM (fun n c => (digit? c).map (16 * n + ·)) 0

/-- The character whose code is written with `count` digits, and the text after them. -/
def char? (count : Nat) (cs : List Char) : Option (Char × List Char) := do
  let code ← read? count cs
  if code.isValidChar then return (Char.ofNat code, cs.drop count) else none

end Hexadecimal

end ComponentAbi
