import ComponentAbi.Text.Decimal
import ComponentAbi.Text.Hexadecimal

/-!
# Numbers and dates in configuration text

No setting is a number or a date, so all that matters is whether a text may stand for one
(`Scalar.isNumberOrDate`). Dates are checked down to the length of the month. Of numbers the form is
checked and not the value: they may be of any size, digits need not follow the mark of a base, and
what comes after an underscore in an integer is left to whoever wants its value.
-/

namespace ComponentAbi

namespace Toml

namespace Scalar

/-! ### Dates and times -/

/-- The number of exactly `count` digits, and the text after them. -/
def digits? (count : Nat) (cs : List Char) : Option (Nat × List Char) :=
  let (digits, rest) := cs.span Char.isDigit
  if digits.length = count then (Decimal.read? digits).map (·, rest) else none

/-- The text after the character `c` that it starts with. -/
def after? (c : Char) : List Char → Option (List Char)
  | first :: rest => if first = c then some rest else none
  | [] => none

/-- The number of days of a month. -/
def daysIn (year month : Nat) : Nat :=
  match month with
  | 2 => if year % 4 = 0 ∧ (year % 100 ≠ 0 ∨ year % 400 = 0) then 29 else 28
  | 4 | 6 | 9 | 11 => 30
  | _ => 31

/-- The text after the date that it starts with. -/
def date? (cs : List Char) : Option (List Char) := do
  let (year, rest) ← digits? 4 cs
  let (month, rest) ← digits? 2 (← after? '-' rest)
  let (day, rest) ← digits? 2 (← after? '-' rest)
  if 1 ≤ month ∧ month ≤ 12 ∧ 1 ≤ day ∧ day ≤ daysIn year month then return rest else none

/-- The text after the hours and minutes that it starts with. -/
def hours? (cs : List Char) : Option (List Char) := do
  let (hour, rest) ← digits? 2 cs
  let (minute, rest) ← digits? 2 (← after? ':' rest)
  if hour ≤ 23 ∧ minute ≤ 59 then return rest else none

/-- The text after the fraction of a second that it starts with, if it does. -/
def fraction? : List Char → Option (List Char)
  | '.' :: rest =>
    let (digits, rest) := rest.span Char.isDigit
    if digits.isEmpty then none else some rest
  | rest => some rest

/-- The text after the time that it starts with. Seconds may be left out, and there are leap
seconds. -/
def time? (cs : List Char) : Option (List Char) := do
  match ← hours? cs with
  | ':' :: rest =>
    let (second, rest) ← digits? 2 rest
    if second ≤ 60 then fraction? rest else none
  | rest => return rest

/-- The text is empty or tells how far a time is from universal time. -/
def isOffset : List Char → Bool
  | [] | ['Z'] | ['z'] => true
  | '+' :: rest | '-' :: rest => hours? rest = some []
  | _ => false

/-- The text is a date with a time. -/
def isDateTime (cs : List Char) : Bool :=
  match date? cs with
  | some ('T' :: rest) | some ('t' :: rest) | some (' ' :: rest) => (time? rest).any isOffset
  | _ => false

/-- The text is a date, a time, or both. -/
def isDate (cs : List Char) : Bool :=
  date? cs = some [] || time? cs = some [] || isDateTime cs

/-! ### Numbers -/

/-- Underscores stand between digits only; `before` says whether a digit comes before the text. -/
def spaced (isDigit : Char → Bool) (before : Bool) : List Char → Bool
  | [] => true
  | c :: rest =>
    if c = '_' then before && rest.head?.any isDigit && spaced isDigit false rest
    else spaced isDigit (isDigit c) rest

/-- The text after the digits and underscores that it starts with. There must be a digit, and unless
`zeros` allows it a zero does not come before other digits. -/
def wholeNumber? (zeros : Bool) (cs : List Char) : Option (List Char) :=
  let (part, rest) := cs.span fun c => c.isDigit || c = '_'
  let count := part.countP Char.isDigit
  if count = 0 || (!zeros && count > 1 && part.head? = some '0') then none else some rest

/-- The text is a number with a fraction or a power of ten. -/
def isFloat (cs : List Char) : Bool :=
  let fraction? : List Char → Option (List Char)
    | '.' :: rest => wholeNumber? true rest
    | rest => some rest
  let power? : List Char → Option (List Char)
    | 'e' :: rest | 'E' :: rest =>
      match rest with
      | '+' :: rest | '-' :: rest | rest => wholeNumber? true rest
    | rest => some rest
  spaced Char.isDigit false cs && ((wholeNumber? false cs).bind fraction?).bind power? = some []

/-- The text is made of digits of a base and underscores, after the mark of the base. -/
def isBased (isDigit : Char → Bool) (cs : List Char) : Bool :=
  spaced Hexadecimal.isDigit false cs && cs.all fun c => isDigit c || c = '_'

/-- The text is a number without a sign. -/
def isUnsigned (cs : List Char) : Bool :=
  let (digits, rest) := cs.span Char.isDigit
  if rest.any fun c => c = '.' || c = 'e' || c = 'E' then isFloat cs
  else if rest.isEmpty then digits = ['0'] || digits.head?.any (· ≠ '0')
  else rest.head? = some '_' && digits.head?.any (· ≠ '0') && spaced Hexadecimal.isDigit false cs

/-- The text is a number that is not finite. -/
def isSpecial (cs : List Char) : Bool :=
  cs = ['i', 'n', 'f'] || cs = ['n', 'a', 'n']

/-- The text is a number or a date. Numbers with a mark of their base have no sign. -/
def isNumberOrDate : List Char → Bool
  | '+' :: cs | '-' :: cs => isUnsigned cs || isSpecial cs
  | '0' :: 'x' :: cs => isBased Hexadecimal.isDigit cs
  | '0' :: 'o' :: cs => isBased (fun c => '0' ≤ c && c ≤ '7') cs
  | '0' :: 'b' :: cs => isBased (fun c => c = '0' || c = '1') cs
  | cs => isUnsigned cs || isSpecial cs || isDate cs

end Scalar

end Toml

end ComponentAbi
