import ComponentAbi.Toml.Scalar
import ComponentAbi.Toml.Table

/-!
# Reading configuration text

The text is read line by line: a header opens a table, and a key with a value adds to the table that
was opened last. Strings come in four forms, and arrays and inline tables may go over several lines.
Arrays and inline tables are nested at most `maxDepth` deep, and keys have at most as many parts.
-/

namespace ComponentAbi

namespace Toml

namespace Reader

/-! ### Blanks, comments and line ends -/

/-- A character that may stand in comments and in strings. -/
def isPlain (c : Char) : Bool :=
  c = '\t' || (32 ≤ c.toNat && c.toNat ≠ 127)

/-- The text without the blanks it starts with. -/
def skipBlanks (cs : List Char) : List Char :=
  cs.dropWhile fun c => c = ' ' || c = '\t'

/-- The text without the comment it starts with, if it does. -/
def skipComment (cs : List Char) : List Char :=
  match cs with
  | '#' :: rest => rest.dropWhile isPlain
  | cs => cs

/-- The text after the line end it starts with. -/
def lineEnd? : List Char → Option (List Char)
  | '\n' :: rest => some rest
  | '\r' :: '\n' :: rest => some rest
  | _ => none

/-- The text without the blanks, comments and line ends it starts with. -/
def skipLines : Nat → List Char → List Char
  | 0, cs => cs
  | fuel + 1, cs =>
    let rest := skipComment (skipBlanks cs)
    match lineEnd? rest with
    | some rest => skipLines fuel rest
    | none => rest

/-- The text without what may stand between the parts of an array. -/
def skipSpace (cs : List Char) : List Char :=
  skipLines cs.length cs

/-- The text after the end of the line, on which nothing but a comment may follow. -/
def finishLine? (cs : List Char) : Option (List Char) :=
  match skipComment (skipBlanks cs) with
  | [] => some []
  | rest => lineEnd? rest

/-! ### Strings -/

/-- The character of an escape after its backslash. -/
def escape : List Char → Option (Char × List Char)
  | 'b' :: rest => some (Char.ofNat 8, rest)
  | 't' :: rest => some ('\t', rest)
  | 'n' :: rest => some ('\n', rest)
  | 'f' :: rest => some (Char.ofNat 12, rest)
  | 'r' :: rest => some ('\r', rest)
  | 'e' :: rest => some (Char.ofNat 27, rest)
  | '"' :: rest => some ('"', rest)
  | '\\' :: rest => some ('\\', rest)
  | 'x' :: rest => Hexadecimal.char? 2 rest
  | 'u' :: rest => Hexadecimal.char? 4 rest
  | 'U' :: rest => Hexadecimal.char? 8 rest
  | _ => none

/-- A string with escapes, on one line, up to its closing quote. -/
def basic : Nat → List Char → Option (List Char × List Char)
  | 0, _ => none
  | fuel + 1, cs =>
    match cs with
    | '"' :: rest => some ([], rest)
    | '\\' :: rest => do
      let (c, rest) ← escape rest
      let (more, rest) ← basic fuel rest
      return (c :: more, rest)
    | c :: rest =>
      if isPlain c then do
        let (more, rest) ← basic fuel rest
        return (c :: more, rest)
      else none
    | [] => none

/-- A string without escapes, on one line, up to its closing quote. -/
def literal : List Char → Option (List Char × List Char)
  | '\'' :: rest => some ([], rest)
  | c :: rest =>
    if isPlain c then do
      let (more, rest) ← literal rest
      return (c :: more, rest)
    else none
  | [] => none

/-- The closing quotes of a string of several lines: three, after at most two that belong to the
string. -/
def closing (quote : Char) (cs : List Char) : Option (List Char × List Char) :=
  let quotes := (cs.takeWhile (· = quote)).length
  if quotes < 3 then none
  else
    let own := min (quotes - 3) 2
    some (List.replicate own quote, cs.drop (own + 3))

/-- The text without the blanks and line ends it starts with. -/
def skipBlankLines : List Char → List Char
  | ' ' :: rest | '\t' :: rest | '\n' :: rest => skipBlankLines rest
  | '\r' :: '\n' :: rest => skipBlankLines rest
  | cs => cs

/-- The text after an escaped line end: the blanks and line ends that follow are passed over. -/
def continued? (cs : List Char) : Option (List Char) :=
  (lineEnd? (skipBlanks cs)).map skipBlankLines

/-- A string of several lines up to its closing quotes; escapes are read if `escapes`. Line ends
belong to the string as they are written. -/
def lines (quote : Char) (escapes : Bool) : Nat → List Char → Option (List Char × List Char)
  | 0, _ => none
  | fuel + 1, cs =>
    match closing quote cs, cs with
    | some done, _ => some done
    | none, '\r' :: '\n' :: rest => do
      let (more, rest) ← lines quote escapes fuel rest
      return ('\r' :: '\n' :: more, rest)
    | none, c :: rest =>
      if escapes && c = '\\' then
        match continued? rest with
        | some rest => lines quote escapes fuel rest
        | none => do
          let (c, rest) ← escape rest
          let (more, rest) ← lines quote escapes fuel rest
          return (c :: more, rest)
      else if c = '\n' || isPlain c then do
        let (more, rest) ← lines quote escapes fuel rest
        return (c :: more, rest)
      else none
    | none, [] => none

/-- A string of several lines after its opening quotes. A line end right there is left out. -/
def afterOpening (quote : Char) (escapes : Bool) (cs : List Char) :
    Option (List Char × List Char) :=
  let cs := (lineEnd? cs).getD cs
  lines quote escapes (cs.length + 1) cs

/-- A string of one line, which may also be a key. -/
def shortString (cs : List Char) : Option (String × List Char) := do
  let (text, rest) ← match cs with
    | '"' :: rest => basic (rest.length + 1) rest
    | '\'' :: rest => literal rest
    | _ => none
  return (String.ofList text, rest)

/-- A string. -/
def string (cs : List Char) : Option (String × List Char) :=
  match cs with
  | '"' :: '"' :: '"' :: rest =>
    (afterOpening '"' true rest).map fun (text, rest) => (String.ofList text, rest)
  | '\'' :: '\'' :: '\'' :: rest =>
    (afterOpening '\'' false rest).map fun (text, rest) => (String.ofList text, rest)
  | cs => shortString cs

/-! ### Keys -/

/-- How deeply arrays and inline tables may be nested, and how many parts a key may have. -/
def maxDepth : Nat := 80

/-- A character of a key without quotes. -/
def isKeyChar (c : Char) : Bool :=
  c.isAlphanum || c = '_' || c = '-'

/-- One part of a key. -/
def keyPart (cs : List Char) : Option (String × List Char) :=
  match shortString cs with
  | some part => some part
  | none =>
    let (name, rest) := cs.span isKeyChar
    if name.isEmpty then none else some (String.ofList name, rest)

/-- At most `parts` parts of a key, with dots between them. -/
def keyParts : (parts : Nat) → List Char → Option (List String × List Char)
  | 0, _ => none
  | parts + 1, cs => do
    let (first, rest) ← keyPart (skipBlanks cs)
    match skipBlanks rest with
    | '.' :: rest => do
      let (more, rest) ← keyParts parts rest
      return (first :: more, rest)
    | rest => return ([first], rest)

/-- A key. -/
def key (cs : List Char) : Option (List String × List Char) :=
  keyParts maxDepth cs

/-- A key up to its value; `skip` passes over what may stand around the sign between them. -/
def keyBeforeValue (skip : List Char → List Char) (cs : List Char) :
    Option (List String × List Char) := do
  let (k, rest) ← key cs
  match skip rest with
  | '=' :: rest => return (k, skip rest)
  | _ => none

/-! ### Values -/

/-- A character of a value without quotes or brackets. -/
def isBare (c : Char) : Bool :=
  !(c.isWhitespace || c = ',' || c = '=' || c = '#' || c = '[' || c = ']' || c = '\x7b'
    || c = '\x7d')

/-- A value without quotes or brackets. A date may have a blank before its time. -/
def bare (cs : List Char) : Option (Toml × List Char) :=
  let (text, rest) := cs.span isBare
  let date := match rest with
    | ' ' :: more =>
      let (time, rest) := more.span isBare
      if Scalar.isDateTime (text ++ ' ' :: time) then some rest else none
    | _ => none
  match date with
  | some rest => some (.other, rest)
  | none =>
    if text = ['t', 'r', 'u', 'e'] then some (.boolean true, rest)
    else if text = ['f', 'a', 'l', 's', 'e'] then some (.boolean false, rest)
    else if Scalar.isNumberOrDate text then some (.other, rest)
    else none

mutual

/-- A value, with `levels` levels of nesting left. Every step is given less fuel. -/
def value : Nat → Nat → List Char → Option (Toml × List Char)
  | 0, _, _ => none
  | fuel + 1, levels, cs =>
    match cs, levels with
    | '[' :: _, 0 | '\x7b' :: _, 0 => none
    | '[' :: rest, levels + 1 => do
      let (items, rest) ← items fuel levels rest
      return (.array items, rest)
    | '\x7b' :: rest, levels + 1 => do
      let (entries, rest) ← inlineEntries fuel levels [] rest
      return (.table (Node.finishEntries entries), rest)
    | '"' :: _, _ | '\'' :: _, _ => (string cs).map fun (text, rest) => (.string text, rest)
    | cs, _ => bare cs

/-- The items of an array up to its closing bracket; a comma may follow the last one. -/
def items : Nat → Nat → List Char → Option (List Toml × List Char)
  | 0, _, _ => none
  | fuel + 1, levels, cs =>
    match skipSpace cs with
    | ']' :: rest => some ([], rest)
    | cs => do
      let (first, rest) ← value fuel levels cs
      match skipSpace rest with
      | ',' :: rest => do
        let (more, rest) ← items fuel levels rest
        return (first :: more, rest)
      | ']' :: rest => return ([first], rest)
      | _ => none

/-- The entries of an inline table up to its closing bracket, after those that were read before; a
comma may follow the last one. -/
def inlineEntries : Nat → Nat → Entries → List Char → Option (Entries × List Char)
  | 0, _, _, _ => none
  | fuel + 1, levels, entries, cs =>
    match skipSpace cs with
    | '\x7d' :: rest => some (entries, rest)
    | cs => do
      let (k, rest) ← keyBeforeValue skipSpace cs
      let (v, rest) ← value fuel levels rest
      let entries ← addValue k v entries
      match skipSpace rest with
      | ',' :: rest => inlineEntries fuel levels entries rest
      | '\x7d' :: rest => return (entries, rest)
      | _ => none

end

/-! ### The whole text -/

/-- Adds the lines of a text to the table that is being built. `header` is the key of the table that
was opened last. Every step is given less fuel. -/
def statements : Nat → List String → Entries → List Char → Option Entries
  | 0, _, _, _ => none
  | fuel + 1, header, entries, cs =>
    match skipSpace cs with
    | [] => some entries
    | '[' :: '[' :: rest => do
      let (k, rest) ← key rest
      match rest with
      | ']' :: ']' :: rest =>
        statements fuel k (← appendTable k entries) (← finishLine? rest)
      | _ => none
    | '[' :: rest => do
      let (k, rest) ← key rest
      match rest with
      | ']' :: rest => statements fuel k (← openTable k entries) (← finishLine? rest)
      | _ => none
    | cs => do
      let (k, rest) ← keyBeforeValue skipBlanks cs
      let (v, rest) ← value (2 * rest.length + 2) maxDepth rest
      statements fuel header (← addUnder header k v entries) (← finishLine? rest)

end Reader

/-- Reads a text; `none` if it is not a table. A byte order mark at its start is passed over. -/
def parse? (text : String) : Option (List (String × Toml)) :=
  let cs := match text.toList with
    | '\ufeff' :: rest => rest
    | cs => cs
  (Reader.statements (cs.length + 1) [] [] cs).map Node.finishEntries

end Toml

end ComponentAbi
