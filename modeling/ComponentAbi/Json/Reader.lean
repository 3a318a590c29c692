import ComponentAbi.Json.Number
import ComponentAbi.Text.Hexadecimal

/-!
# Reading JSON text

The whole text must be one JSON value, with blanks around its parts. Values may be nested 127 deep:
what is nested deeper is unreadable, as are strings that are not Unicode and numbers that are too
great for a floating-point number.
-/

namespace ComponentAbi

namespace Json

/-- How deeply arrays and objects may be nested. -/
def maxDepth : Nat := 127

namespace Reader

/-- The text without the blanks it starts with. -/
def skipBlanks (cs : List Char) : List Char :=
  cs.dropWhile fun c => c = ' ' || c = '\n' || c = '\r' || c = '\t'

/-! ### Strings -/

/-- A part of a written string: a character, or an escaped UTF-16 unit. -/
inductive Piece where
  | char (c : Char)
  | unit (n : Nat)
deriving DecidableEq, Repr

/-- The character of a one-letter escape. -/
def escaped? : Char → Option Char
  | '"' => some '"'
  | '\\' => some '\\'
  | '/' => some '/'
  | 'b' => some (Char.ofNat 8)
  | 'f' => some (Char.ofNat 12)
  | 'n' => some '\n'
  | 'r' => some '\r'
  | 't' => some '\t'
  | _ => none

/-- The parts of a string up to its closing quote, and the text after it. -/
def pieces : List Char → Option (List Piece × List Char)
  | [] => none
  | '"' :: rest => some ([], rest)
  | '\\' :: 'u' :: a :: b :: c :: d :: rest => do
    let n ← Hexadecimal.read? 4 [a, b, c, d]
    let (more, rest) ← pieces rest
    return (.unit n :: more, rest)
  | '\\' :: c :: rest => do
    let first ← escaped? c
    let (more, rest) ← pieces rest
    return (.char first :: more, rest)
  | c :: rest => do
    if c.toNat < 32 then none
    let (more, rest) ← pieces rest
    return (.char c :: more, rest)

/-- The first unit of a pair. -/
def isHigh (n : Nat) : Bool :=
  0xD800 ≤ n && n < 0xDC00

/-- The second unit of a pair. -/
def isLow (n : Nat) : Bool :=
  0xDC00 ≤ n && n < 0xE000

/-- The characters of a written string; `none` if a unit is neither a character nor half of one. -/
def characters : List Piece → Option (List Char)
  | [] => some []
  | .char c :: rest => (characters rest).map (c :: ·)
  | .unit high :: .unit low :: rest =>
    if isHigh high then
      if isLow low then
        let code := 0x10000 + 0x400 * (high - 0xD800) + (low - 0xDC00)
        (characters rest).map (Char.ofNat code :: ·)
      else none
    else if isLow high then none
    else (characters (.unit low :: rest)).map (Char.ofNat high :: ·)
  | .unit n :: rest =>
    if isHigh n || isLow n then none else (characters rest).map (Char.ofNat n :: ·)

/-! ### Numbers -/

/-- The digits at the start of a text, and the rest. -/
def digits (cs : List Char) : List Char × List Char :=
  cs.span Char.isDigit

/-- At least one digit. -/
def someDigits (cs : List Char) : Option (List Char × List Char) :=
  let (ds, rest) := digits cs
  if ds.isEmpty then none else some (ds, rest)

/-- The digits before the point: a zero stands alone. -/
def wholeDigits : List Char → Option (List Char × List Char)
  | '0' :: rest => some (['0'], rest)
  | cs => someDigits cs

/-- The digits after the point, if there is a point. -/
def fraction : List Char → Option (Option String × List Char)
  | '.' :: rest => do
    let (ds, rest) ← someDigits rest
    return (some (String.ofList ds), rest)
  | cs => some (none, cs)

/-- The number that some digits write. -/
def natOf (ds : List Char) : Nat :=
  (Decimal.read? ds).getD 0

/-- The power of ten, if one is written. -/
def exponent (cs : List Char) : Option (Option Int × List Char) :=
  match cs with
  | 'e' :: rest | 'E' :: rest =>
    match rest with
    | '-' :: rest => do
      let (ds, rest) ← someDigits rest
      return (some (-(natOf ds : Int)), rest)
    | '+' :: rest | rest => do
      let (ds, rest) ← someDigits rest
      return (some (natOf ds : Int), rest)
  | cs => some (none, cs)

/-- A number. -/
def numeral (cs : List Char) : Option (Numeral × List Char) := do
  let (negative, cs) := match cs with
    | '-' :: rest => (true, rest)
    | cs => (false, cs)
  let (whole, cs) ← wholeDigits cs
  let (fraction, cs) ← fraction cs
  let (exponent, cs) ← exponent cs
  return ({ negative, whole := String.ofList whole, fraction, exponent }, cs)

/-! ### Values -/

/-- A value that must not be nested deeper than `levels`. -/
def limited (levels : Nat) (j : Json) : Json :=
  if levels = 0 then unreadable else j

/-- An object; a name that is not Unicode makes it unreadable. -/
def objectOf (members : List (Option String × Json)) : Json :=
  match members.mapM fun (name, j) => name.map (·, j) with
  | some members => object members
  | none => unreadable

/-- A string after its opening quote. -/
def text (cs : List Char) : Option (Option String × List Char) := do
  let (parts, rest) ← pieces cs
  return ((characters parts).map String.ofList, rest)

mutual

/-- A value, with `levels` levels of nesting left. Every step is given less fuel. -/
def value : Nat → Nat → List Char → Option (Json × List Char)
  | 0, _, _ => none
  | fuel + 1, levels, cs =>
    match skipBlanks cs with
    | 'n' :: 'u' :: 'l' :: 'l' :: rest => some (null, rest)
    | 't' :: 'r' :: 'u' :: 'e' :: rest => some (bool true, rest)
    | 'f' :: 'a' :: 'l' :: 's' :: 'e' :: rest => some (bool false, rest)
    | '"' :: rest => do
      let (s, rest) ← text rest
      return ((s.map string).getD unreadable, rest)
    | '[' :: rest =>
      match skipBlanks rest with
      | ']' :: rest => some (limited levels (array []), rest)
      | rest => do
        let (items, rest) ← items fuel (levels - 1) rest
        return (limited levels (array items), rest)
    | '\x7b' :: rest =>
      match skipBlanks rest with
      | '\x7d' :: rest => some (limited levels (object []), rest)
      | rest => do
        let (members, rest) ← members fuel (levels - 1) rest
        return (limited levels (objectOf members), rest)
    | rest => do
      let (n, rest) ← numeral rest
      return (if n.value?.isSome then number n else unreadable, rest)

/-- The items of an array up to its closing bracket. -/
def items : Nat → Nat → List Char → Option (List Json × List Char)
  | 0, _, _ => none
  | fuel + 1, levels, cs => do
    let (first, rest) ← value fuel levels cs
    match skipBlanks rest with
    | ']' :: rest => return ([first], rest)
    | ',' :: rest => do
      let (more, rest) ← items fuel levels rest
      return (first :: more, rest)
    | _ => none

/-- The members of an object up to its closing bracket. -/
def members : Nat → Nat → List Char → Option (List (Option String × Json) × List Char)
  | 0, _, _ => none
  | fuel + 1, levels, cs =>
    match skipBlanks cs with
    | '"' :: rest => do
      let (name, rest) ← text rest
      match skipBlanks rest with
      | ':' :: rest => do
        let (first, rest) ← value fuel levels rest
        match skipBlanks rest with
        | '\x7d' :: rest => return ([(name, first)], rest)
        | ',' :: rest => do
          let (more, rest) ← members fuel levels rest
          return ((name, first) :: more, rest)
        | _ => none
      | _ => none
    | _ => none

end

end Reader

/-- Reads a JSON text; `none` if it is not one. Every value but the first follows a bracket, a comma
or a colon, so there are no more steps than twice as many as characters. -/
def parse? (s : String) : Option Json :=
  let cs := s.toList
  match Reader.value (2 * cs.length + 2) maxDepth cs with
  | some (j, rest) => if (Reader.skipBlanks rest).isEmpty then some j else none
  | none => none

end Json

end ComponentAbi
