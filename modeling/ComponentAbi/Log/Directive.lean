import ComponentAbi.Log.Record
import ComponentAbi.Text.Alphanumeric
import ComponentAbi.Text.Decimal
import ComponentAbi.Text.Pattern

/-!
# Directives for the log

A directive such as `info`, `loader=debug` or `loader[load]=trace` says how severe the records of a
part of the program have to be (`LogDirective.parse?`). In brackets it names a span in which, or in
braces something about which the records tell. Nothing here runs inside spans.
-/

namespace ComponentAbi

/-- Which records of a target a directive is about. -/
inductive LogScope where
  | all
  /-- Those that tell something of a name. -/
  | telling (field : String)
  /-- Those inside certain spans. -/
  | insideSpans
deriving DecidableEq, Repr

/-- One directive of a filter. -/
structure LogDirective where
  /-- The start of the targets it is about; none for all of them. -/
  target : Option String
  /-- Which of their records it is about. -/
  scope : LogScope
  /-- The rank of the least severe records it enables. -/
  rank : Nat
deriving DecidableEq, Repr

namespace LogDirective

/-! ### Levels -/

/-- Blanks around a directive. -/
def isBlank (c : Char) : Bool :=
  let n := c.toNat
  (9 ≤ n && n ≤ 13) || [0x20, 0x85, 0xA0, 0x1680, 0x2028, 0x2029, 0x202F, 0x205F, 0x3000].contains n
    || (0x2000 ≤ n && n ≤ 0x200A)

/-- The rank of a written level: a name in letters of any case, or a number. -/
def rankOf? (text : String) : Option Nat :=
  match text.toLower with
  | "off" => some 0
  | "error" => some 1
  | "warn" => some 2
  | "info" => some 3
  | "debug" => some 4
  | "trace" => some 5
  | _ =>
    match Decimal.readWord? text with
    | some n => if n.toNat ≤ 5 then some n.toNat else none
    | none => none

/-- The rank after an equals sign. Nothing stands for the least severe records, and there must be no
blanks before the directive. -/
def rankAfterSign? (indented : Bool) (text : List Char) : Option Nat :=
  if indented then none else if text.isEmpty then some 5 else rankOf? (String.ofList text)

/-! ### Values -/

/-- The text is a number without a sign, perhaps with a point and a power of ten. -/
def isNumber (cs : List Char) : Bool :=
  let (whole, rest) := cs.span Char.isDigit
  let (fraction, rest) := match rest with
    | '.' :: rest => rest.span Char.isDigit
    | rest => ([], rest)
  let endsWell := match rest with
    | [] => true
    | 'e' :: rest | 'E' :: rest =>
      match rest with
      | '+' :: power | '-' :: power | power => !power.isEmpty && power.all Char.isDigit
    | _ => false
  !(whole.isEmpty && fraction.isEmpty) && endsWell

/-- The text may stand for the value of a field: it is a regular expression, or a number with a
plus. -/
def isValue (cs : List Char) : Bool :=
  Pattern.isWellFormed cs ||
    match cs with
    | '+' :: rest =>
      isNumber rest || ["inf", "infinity", "nan"].contains (String.ofList rest).toLower
    | _ => false

/-! ### Brackets -/

/-- What may follow a span: blanks, or an equals sign with a level. -/
def afterSpan (indented : Bool) : List Char → Option Nat
  | '=' :: rest => rankAfterSign? indented rest
  | rest => if rest.all isBlank then some 5 else none

/-- What a field in braces narrows a directive to. A field with a value is about spans. -/
def scopeOf? (inSpan : Bool) (field : List Char) : Option LogScope :=
  let (name, value) := field.span (· ≠ '=')
  match value with
  | [] =>
    if field.isEmpty then none
    else some (if inSpan then .insideSpans else .telling (String.ofList name))
  | _ :: value => if isValue (value.takeWhile (· ≠ '=')) then some .insideSpans else none

/-- A directive after its opening bracket: the name of a span, and perhaps a field. Of a directive
with blanks before it no field is known. -/
def insideBrackets (indented : Bool) (target : Option String) (cs : List Char) :
    Option LogDirective := do
  let (name, rest) := cs.span fun c => c ≠ ']' && c ≠ '\x7b'
  match rest with
  | ']' :: rest => return { target, scope := .insideSpans, rank := ← afterSpan indented rest }
  | '\x7b' :: rest =>
    let (field, rest) := rest.span (· ≠ '\x7d')
    match rest with
    | '\x7d' :: ']' :: rest =>
      let scope ← scopeOf? (indented || !name.isEmpty) field
      return { target, scope, rank := ← afterSpan indented rest }
    | _ => none
  | _ => none

/-! ### Directives -/

/-- A character that a directive may start with. -/
def mayStart (c : Char) : Bool :=
  Text.isAlphanumeric c || c = '-' || c = ':' || c = '_'

/-- A directive that starts with a target, or is a level alone. Blanks before it are part of its
target. -/
def ofTarget? (blanks cs : List Char) : Option LogDirective :=
  let (name, rest) := cs.span fun c => c ≠ '=' && c ≠ '['
  let target := String.ofList (blanks ++ name)
  match rest with
  | '=' :: rest =>
    (rankAfterSign? (!blanks.isEmpty) rest).map fun rank =>
      { target := some target, scope := .all, rank }
  | _ :: rest => insideBrackets (!blanks.isEmpty) (some target) rest
  | [] =>
    match rankOf? target with
    | some rank => some { target := none, scope := .all, rank }
    | none => some { target := some target, scope := .all, rank := 5 }

/-- Reads a directive. -/
def parse? (text : String) : Option LogDirective :=
  let (blanks, rest) := text.toList.span isBlank
  match rest with
  | '[' :: rest => insideBrackets (!blanks.isEmpty) none rest
  | c :: _ => if mayStart c then ofTarget? blanks rest else none
  | [] => none

/-! ### Use -/

/-- The directive is about a record. -/
def covers (d : LogDirective) (r : LogRecord) : Bool :=
  r.target.startsWith (d.target.getD "") &&
    match d.scope with
    | .all => true
    | .telling field => r.fields.contains field
    | .insideSpans => false

/-- Among directives about the same record, whether a later one counts instead of this one: its
target is longer, or if there is no difference it names a field that is not less. -/
def yieldsTo (d later : LogDirective) : Bool :=
  let own := (d.target.getD "").utf8ByteSize
  let other := (later.target.getD "").utf8ByteSize
  own < other || own = other &&
    match d.scope, later.scope with
    | .telling a, .telling b => a ≤ b
    | .telling _, _ => false
    | _, _ => true

end LogDirective

end ComponentAbi
