import ComponentAbi.Text.Hexadecimal

/-!
# Regular expressions

Whether a text is a regular expression (`Pattern.isWellFormed`). Groups and classes are closed, and
what is repeated stands before the sign for it. Counted repetition, the ends of words, and whatever
needs to know the letters and digits of all scripts are refused: the classes of digits, blanks and
words, and matching in any case.
-/

namespace ComponentAbi

namespace Pattern

/-! ### Characters -/

/-- The character that a letter after a backslash stands for. -/
def ofLetter? : Char → Option Char
  | 'a' => some (Char.ofNat 7)
  | 'f' => some (Char.ofNat 12)
  | 't' => some '\t'
  | 'n' => some '\n'
  | 'r' => some '\r'
  | 'v' => some (Char.ofNat 11)
  | _ => none

/-- What follows a backslash: a character, or for the start or end of the text none. -/
def escape : List Char → Option (Option Char × List Char)
  | 'x' :: rest => (Hexadecimal.char? 2 rest).map fun (c, rest) => (some c, rest)
  | 'u' :: rest => (Hexadecimal.char? 4 rest).map fun (c, rest) => (some c, rest)
  | 'U' :: rest => (Hexadecimal.char? 8 rest).map fun (c, rest) => (some c, rest)
  | 'A' :: rest | 'z' :: rest => some (none, rest)
  | c :: rest =>
    if c.isAlphanum then (ofLetter? c).map fun c => (some c, rest)
    else if c.toNat < 128 && c ≠ '<' && c ≠ '>' then some (some c, rest)
    else none
  | [] => none

/-! ### Classes -/

/-- The names of the classes of ASCII characters. -/
def asciiClasses : List String :=
  ["alnum", "alpha", "ascii", "blank", "cntrl", "digit", "graph", "lower", "print", "punct",
    "space", "upper", "word", "xdigit"]

/-- The text after the named class that it starts with, behind its bracket. -/
def namedClass? : List Char → Option (List Char)
  | ':' :: rest =>
    let rest := match rest with
      | '^' :: rest => rest
      | rest => rest
    let (name, rest) := rest.span (· ≠ ':')
    match rest with
    | ':' :: ']' :: rest => if asciiClasses.contains (String.ofList name) then some rest else none
    | _ => none
  | _ => none

/-- The text after what a class may start with: a sign that it is negated, and then dashes or one
bracket that stand for themselves. -/
def openClass (cs : List Char) : List Char :=
  let rest := match cs with
    | '^' :: rest => rest
    | cs => cs
  match rest with
  | '-' :: rest => rest.dropWhile (· = '-')
  | ']' :: rest => rest
  | rest => rest

/-- One character of a class. -/
def classMember : List Char → Option (Char × List Char)
  | '\\' :: rest =>
    match escape rest with
    | some (some c, rest) => some (c, rest)
    | _ => none
  | c :: rest => some (c, rest)
  | [] => none

/-- The text after a class, which stands inside `depth` other ones. Every step is given less
fuel. -/
def afterClass : Nat → Nat → List Char → Option (List Char)
  | 0, _, _ => none
  | fuel + 1, depth, cs =>
    match cs with
    | ']' :: rest => if depth = 0 then some rest else afterClass fuel (depth - 1) rest
    | '[' :: rest =>
      match namedClass? rest with
      | some rest => afterClass fuel depth rest
      | none => afterClass fuel (depth + 1) (openClass rest)
    | '&' :: '&' :: rest | '-' :: '-' :: rest | '~' :: '~' :: rest => afterClass fuel depth rest
    | cs => do
      let (low, rest) ← classMember cs
      match rest with
      | '-' :: ']' :: _ | '-' :: '-' :: _ => afterClass fuel depth rest
      | '-' :: rest => do
        let (high, rest) ← classMember rest
        if low ≤ high then afterClass fuel depth rest else none
      | rest => afterClass fuel depth rest

/-! ### Groups -/

/-- A character of the name of a group. -/
def isNameChar (c : Char) : Bool :=
  c.isAlphanum || c = '_' || c = '.' || c = '[' || c = ']'

/-- The text after the name of a group. -/
def groupName? (cs : List Char) : Option (List Char) :=
  let (name, rest) := cs.span isNameChar
  match name, rest with
  | first :: _, '>' :: rest => if first.isAlpha || first = '_' then some rest else none
  | _, _ => none

/-- Flags that are switched on, and then off: no flag twice, and one after the dash. -/
def areFlags (cs : List Char) : Bool :=
  let (on, rest) := cs.span (· ≠ '-')
  let off := rest.drop 1
  (on ++ off).all (fun c => c = 'i' || c = 'm' || c = 's' || c = 'u' || c = 'x' || c = 'U' || c = 'R')
    && (on ++ off).eraseDups.length = (on ++ off).length
    && (rest.isEmpty || !off.isEmpty) && !on.contains 'i'

/-- What follows an opening parenthesis: the text where the group's own expression starts, or where
it ends if it holds nothing but flags. -/
def openGroup : List Char → Option (Bool × List Char)
  | '?' :: 'P' :: '<' :: rest | '?' :: '<' :: rest => (groupName? rest).map (true, ·)
  | '?' :: rest =>
    let (flags, rest) := rest.span fun c => c ≠ ':' && c ≠ ')'
    match rest with
    | ':' :: rest => if areFlags flags then some (true, rest) else none
    | ')' :: rest => if areFlags flags && !flags.isEmpty then some (false, rest) else none
    | _ => none
  | rest => some (true, rest)

/-! ### Expressions -/

/-- The text is the rest of an expression inside `depth` groups. `repeatable` says whether something
that can be repeated comes before it. Every step is given less fuel. -/
def isRest : Nat → (depth : Nat) → (repeatable : Bool) → List Char → Bool
  | 0, _, _, _ => false
  | _ + 1, depth, _, [] => depth = 0
  | fuel + 1, depth, repeatable, c :: rest =>
    match c with
    | '(' =>
      match openGroup rest with
      | some (opened, rest) => isRest fuel (if opened then depth + 1 else depth) false rest
      | none => false
    | ')' => depth ≠ 0 && isRest fuel (depth - 1) true rest
    | '|' => isRest fuel depth false rest
    | '*' | '+' | '?' => repeatable && isRest fuel depth true rest
    | '\x7b' => false
    | '[' =>
      match afterClass (2 * rest.length + 1) 0 (openClass rest) with
      | some rest => isRest fuel depth true rest
      | none => false
    | '\\' =>
      match escape rest with
      | some (_, rest) => isRest fuel depth true rest
      | none => false
    | _ => isRest fuel depth true rest

/-- The text is a regular expression. -/
def isWellFormed (cs : List Char) : Bool :=
  isRest (cs.length + 1) 0 false cs

example : isWellFormed "(a|[^]b-d])+?\\x41$".toList = true := by decide +kernel

example : isWellFormed "(a".toList = false ∧ isWellFormed "*".toList = false := by decide +kernel

end Pattern

end ComponentAbi
