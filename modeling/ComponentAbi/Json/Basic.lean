/-!
# JSON values

JSON values as trees, and their text. Numbers keep their written form, so that nothing is lost
before it is known what kind of number is wanted; object members keep their order, and a name may
occur more than once. What was read from text may have parts that are well formed but stand for no
value (`Json.unreadable`); such a part does no harm where nothing looks at it.
-/

namespace ComponentAbi

/-- A written number. -/
structure Numeral where
  /-- A minus sign comes first. -/
  negative : Bool := false
  /-- The digits before the point. -/
  whole : String
  /-- The digits after the point, if there is a point. -/
  fraction : Option String := none
  /-- The power of ten, if one is written. -/
  exponent : Option Int := none
deriving DecidableEq, Repr, Inhabited

namespace Numeral

/-- The written form. -/
def toText (n : Numeral) : String :=
  let sign := if n.negative then "-" else ""
  let fraction := n.fraction.elim "" ("." ++ ·)
  let exponent := n.exponent.elim "" fun e => "e" ++ toString e
  sign ++ n.whole ++ fraction ++ exponent

/-- An integer. -/
def ofInt (n : Int) : Numeral :=
  { negative := n < 0, whole := toString n.natAbs }

end Numeral

/-- A JSON value. -/
inductive Json where
  | null
  | bool (b : Bool)
  | number (n : Numeral)
  | string (s : String)
  | array (items : List Json)
  | object (members : List (String × Json))
  /-- A string that is not Unicode, a number that is too great, or something nested too deeply. -/
  | unreadable
deriving Repr, Inhabited

namespace Json

/-- A natural number. -/
def nat (n : Nat) : Json :=
  number (.ofInt n)

/-- An integer. -/
def int (n : Int) : Json :=
  number (.ofInt n)

/-- A value that may be absent, as null. -/
def option {α : Type} (encode : α → Json) : Option α → Json
  | none => null
  | some a => encode a

/-- Values in order. -/
def listOf {α : Type} (encode : α → Json) (items : List α) : Json :=
  array (items.map encode)

/-- A member that is left out where the value is absent. -/
def optionalMember {α : Type} (name : String) (encode : α → Json) :
    Option α → List (String × Json)
  | none => []
  | some a => [(name, encode a)]

mutual

/-- Every part of the value is readable. -/
def isReadable : Json → Bool
  | null | bool _ | number _ | string _ => true
  | array items => itemsReadable items
  | object members => membersReadable members
  | unreadable => false
termination_by structural j => j

/-- Every part of some values is readable. -/
def itemsReadable : List Json → Bool
  | [] => true
  | j :: rest => j.isReadable && itemsReadable rest
termination_by structural items => items

/-- Every part of some members is readable. -/
def membersReadable : List (String × Json) → Bool
  | [] => true
  | (_, j) :: rest => j.isReadable && membersReadable rest
termination_by structural members => members

end

mutual

/-- How deeply arrays and objects are nested in a value. -/
def depth : Json → Nat
  | null | bool _ | number _ | string _ | unreadable => 0
  | array items => itemsDepth items + 1
  | object members => membersDepth members + 1
termination_by structural j => j

/-- The greatest depth of some values. -/
def itemsDepth : List Json → Nat
  | [] => 0
  | j :: rest => max j.depth (itemsDepth rest)
termination_by structural items => items

/-- The greatest depth of some members. -/
def membersDepth : List (String × Json) → Nat
  | [] => 0
  | (_, j) :: rest => max j.depth (membersDepth rest)
termination_by structural members => members

end

/-! ### Text -/

/-- The digit of a number below sixteen. -/
def hexDigit (n : Nat) : Char :=
  Nat.digitChar n

/-- How a character is written inside a string. -/
def escape (c : Char) : String :=
  match c with
  | '"' => "\\\""
  | '\\' => "\\\\"
  | '\n' => "\\n"
  | '\r' => "\\r"
  | '\t' => "\\t"
  | c =>
    if c.toNat = 8 then "\\b"
    else if c.toNat = 12 then "\\f"
    else if c.toNat < 32 then
      "\\u00" ++ String.ofList [hexDigit (c.toNat / 16), hexDigit (c.toNat % 16)]
    else String.singleton c

/-- A string in quotes. -/
def quote (s : String) : String :=
  "\"" ++ String.join (s.toList.map escape) ++ "\""

mutual

/-- The text of a value without any blanks. -/
def compact : Json → String
  | null | unreadable => "null"
  | bool b => if b then "true" else "false"
  | number n => n.toText
  | string s => quote s
  | array items => "[" ++ String.intercalate "," (compactItems items) ++ "]"
  | object members => "\x7b" ++ String.intercalate "," (compactMembers members) ++ "\x7d"
termination_by structural j => j

/-- The texts of some values. -/
def compactItems : List Json → List String
  | [] => []
  | j :: rest => j.compact :: compactItems rest
termination_by structural items => items

/-- The texts of some members. -/
def compactMembers : List (String × Json) → List String
  | [] => []
  | (name, j) :: rest => (quote name ++ ":" ++ j.compact) :: compactMembers rest
termination_by structural members => members

end

/-- A bracketed sequence with one part a line; without parts, the brackets alone. -/
def bracketed (opening closing : String) (indent : Nat) (parts : List String) : String :=
  if parts.isEmpty then opening ++ closing
  else
    let line := "\n" ++ String.ofList (List.replicate (indent + 2) ' ')
    let last := "\n" ++ String.ofList (List.replicate indent ' ')
    opening ++ line ++ String.intercalate ("," ++ line) parts ++ last ++ closing

mutual

/-- The text of a value with one item or member a line, indented by two blanks more for every
level. -/
def prettyAt (indent : Nat) : Json → String
  | null | unreadable => "null"
  | bool b => if b then "true" else "false"
  | number n => n.toText
  | string s => quote s
  | array items => bracketed "[" "]" indent (prettyItems (indent + 2) items)
  | object members => bracketed "\x7b" "\x7d" indent (prettyMembers (indent + 2) members)
termination_by structural j => j

/-- The indented texts of some values. -/
def prettyItems (indent : Nat) : List Json → List String
  | [] => []
  | j :: rest => j.prettyAt indent :: prettyItems indent rest
termination_by structural items => items

/-- The indented texts of some members. -/
def prettyMembers (indent : Nat) : List (String × Json) → List String
  | [] => []
  | (name, j) :: rest => (quote name ++ ": " ++ j.prettyAt indent) :: prettyMembers indent rest
termination_by structural members => members

end

/-- The indented text of a value. -/
def pretty (j : Json) : String :=
  j.prettyAt 0

end Json

end ComponentAbi
