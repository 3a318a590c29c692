import ComponentAbi.Json.Fields
import ComponentAbi.Json.Reader
import ComponentAbi.Value
import ComponentAbi.Word

/-!
# Values and words as JSON

A value says which kind it is of in a member `kind`, and its contents stand in a member `value`
(`Value.toJson`, `Value.ofJson?`). A word says so in a member `type` (`Word.toJson`,
`Word.ofJson?`). Floating-point contents are numbers, so that what is not finite is written as
null and cannot be read back.
-/

namespace ComponentAbi

namespace JsonNumber

/-- The nearest number of a format, as its bits. -/
def toFloat (f : FloatFormat) : JsonNumber → Nat
  | integer n => f.signed (n < 0) (f.ofRatio n.natAbs 1)
  | float bits => FloatFormat.double.convert f bits

end JsonNumber

namespace Json

/-! ### Plain contents -/

/-- The value of a boolean. -/
def bool? : Json → Option Bool
  | bool b => some b
  | _ => none

/-- The one character of a string. -/
def char? (j : Json) : Option Char := do
  match (← j.string?).toList with
  | [c] => return c
  | _ => none

/-- An integer from `low` to `high`. -/
def integer? (low high : Int) : Json → Option Int
  | number n =>
    match n.value? with
    | some (.integer i) => if low ≤ i ∧ i ≤ high then some i else none
    | _ => none
  | _ => none

/-- An integer without sign that fits some bits. -/
def unsigned? (bits : Nat) (j : Json) : Option Nat :=
  (j.integer? 0 (2 ^ bits - 1)).map Int.toNat

/-- An integer with a sign that fits some bits. -/
def signed? (bits : Nat) (j : Json) : Option Int :=
  j.integer? (-2 ^ (bits - 1)) (2 ^ (bits - 1) - 1)

/-- The nearest floating-point number of a format, as its bits. -/
def float? (f : FloatFormat) : Json → Option Nat
  | number n => n.value?.map (·.toFloat f)
  | _ => none

/-! ### Tagged values -/

/-- A value that says of which kind it is. -/
structure Tagged where
  /-- The kind. -/
  tag : String
  /-- What the value holds, if that is given. -/
  contents : Option Json
  /-- The contents, and so all values in them, were read before it was known what they are. -/
  ahead : Bool

/-- A tag that is a member of an object: a name, or an object that gives it the value null. A tag
that was read ahead may give it the empty object instead. -/
def tag? (ahead : Bool) : Json → Option String
  | string name => some name
  | object [(name, null)] => some name
  | object [(name, object [])] => if ahead then some name else none
  | _ => none

/-- A tag that is an item of an array: a name, or if it was read ahead the number of one. -/
def tagItem? (names : List String) (ahead : Bool) : Json → Option String
  | string name => some name
  | number n =>
    match ahead, n.value? with
    | true, some (.integer (.ofNat i)) => names[i]?
    | _, _ => none
  | _ => none

/-- The tag and the contents of a value, which are the members `tag` and `content` of an object in
any order, or the items of an array; `names` are all tags in their order. The contents may be absent
in an object. Contents that stand before the tag are read ahead, and have to be readable in all
parts. -/
def tagged? (tag content : String) (names : List String) (ahead : Bool) : Json → Option Tagged
  | array [t, c] => do
    return { tag := ← t.tagItem? names ahead, contents := some c, ahead }
  | object members => do
    match members.filter fun m => m.1 == tag || m.1 == content with
    | [(n, t)] =>
      if n == tag then return { tag := ← t.tag? ahead, contents := none, ahead } else none
    | [(n, a), (k, b)] =>
      if n == tag && k == content then
        return { tag := ← a.tag? ahead, contents := some b, ahead }
      else if n == content && k == tag && a.isReadable then
        return { tag := ← b.tag? ahead, contents := some a, ahead := true }
      else none
    | _ => none
  | _ => none

end Json

namespace Value

/-! ### Writing -/

/-- A value of a kind with its contents. -/
def ofKind (kind : String) (contents : Json) : Json :=
  .object [("kind", .string kind), ("value", contents)]

mutual

/-- The contents of a value. -/
def contents : Value → Json
  | bool b => .bool b
  | u8 n => .nat n.toNat
  | u16 n => .nat n.toNat
  | u32 n => .nat n.toNat
  | u64 n => .nat n.toNat
  | s8 n => .int n.toInt
  | s16 n => .int n.toInt
  | s32 n => .int n.toInt
  | s64 n => .int n.toInt
  | f32 bits => .single bits
  | f64 bits => .double bits
  | char c => .string (String.singleton c)
  | string text => .string text
  | list items | tuple items => .array (itemsToJson items)
  | record fields => .array (fieldsToJson fields)
  | variant label payload => .object [("case", .string label), ("payload", payloadToJson payload)]
  | enum label => .string label
  | option payload => payloadToJson payload
  | ok payload => .object [("Ok", payloadToJson payload)]
  | err payload => .object [("Err", payloadToJson payload)]
  | flags labels => .listOf .string labels
  | own handle | borrow handle => .nat handle.toNat
termination_by structural v => v

/-- Values in order. -/
def itemsToJson : List Value → List Json
  | [] => []
  | v :: rest => ofKind v.kind v.contents :: itemsToJson rest
termination_by structural items => items

/-- Names with values in order. -/
def fieldsToJson : List (String × Value) → List Json
  | [] => []
  | (label, v) :: rest => .array [.string label, ofKind v.kind v.contents] :: fieldsToJson rest
termination_by structural fields => fields

/-- A payload that may be absent, as null. -/
def payloadToJson : Option Value → Json
  | none => .null
  | some v => ofKind v.kind v.contents
termination_by structural payload => payload

end

/-- A value as JSON. -/
def toJson (v : Value) : Json :=
  ofKind v.kind v.contents

/-! ### Reading -/

/-- The kinds of values in the order in which they may be numbered. -/
def kinds : List String :=
  ["bool", "u8", "u16", "u32", "u64", "s8", "s16", "s32", "s64", "f32", "f64", "char", "string",
    "list", "record", "tuple", "variant", "enum", "option", "result", "flags", "own", "borrow"]

/-- Reads a name with a value. -/
def fieldOfJson? (read : Json → Option Value) : Json → Option (String × Value)
  | .array [label, v] => do return (← label.string?, ← read v)
  | _ => none

/-- Reads a case with a payload that may be absent. -/
def caseOfJson? (read : Json → Option Value) (j : Json) : Option Value :=
  match j.objectFields? ["case", "payload"] false with
  | some [label, payload] => do
    return variant (← Json.required Json.string? label) (← Json.optional read payload)
  | _ => none

/-- Reads a success or failure. -/
def outcomeOfJson? (read : Json → Option Value) : Json → Option Value
  | .object [("Ok", payload)] => (Json.optionOf? read payload).map ok
  | .object [("Err", payload)] => (Json.optionOf? read payload).map err
  | _ => none

/-- Reads the contents of a value of a kind. -/
def ofContents? (read : Json → Option Value) (kind : String) (j : Json) : Option Value :=
  match kind with
  | "bool" => j.bool?.map bool
  | "u8" => (j.unsigned? 8).map fun n => u8 (.ofNat n)
  | "u16" => (j.unsigned? 16).map fun n => u16 (.ofNat n)
  | "u32" => (j.unsigned? 32).map fun n => u32 (.ofNat n)
  | "u64" => (j.unsigned? 64).map fun n => u64 (.ofNat n)
  | "s8" => (j.signed? 8).map fun n => s8 (.ofInt n)
  | "s16" => (j.signed? 16).map fun n => s16 (.ofInt n)
  | "s32" => (j.signed? 32).map fun n => s32 (.ofInt n)
  | "s64" => (j.signed? 64).map fun n => s64 (.ofInt n)
  | "f32" => (j.float? .single).map fun bits => f32 (.ofNat bits)
  | "f64" => (j.float? .double).map fun bits => f64 (.ofNat bits)
  | "char" => j.char?.map char
  | "string" => j.string?.map string
  | "list" => (j.listOf? read).map list
  | "record" => (j.listOf? (fieldOfJson? read)).map record
  | "tuple" => (j.listOf? read).map tuple
  | "variant" => caseOfJson? read j
  | "enum" => j.string?.map enum
  | "option" => (j.optionOf? read).map option
  | "result" => outcomeOfJson? read j
  | "flags" => (j.listOf? Json.string?).map flags
  | "own" => (j.unsigned? 32).map fun n => own (.ofNat n)
  | "borrow" => (j.unsigned? 32).map fun n => borrow (.ofNat n)
  | _ => none

/-- Reads a value that is nested less than `depth` deep and may have been read ahead. Only an option
may lack its contents, and is then empty. -/
def ofJsonWithin? : Nat → Bool → Json → Option Value
  | 0, _, _ => none
  | depth + 1, ahead, j => do
    let tagged ← j.tagged? "kind" "value" kinds ahead
    match tagged.tag, tagged.contents with
    | kind, some contents => ofContents? (ofJsonWithin? depth tagged.ahead) kind contents
    | "option", none => return option none
    | _, none => none

/-- Reads a value. -/
def ofJson? (j : Json) : Option Value :=
  ofJsonWithin? (j.depth + 1) false j

/-- Reads the text of a value. -/
def parse? (text : String) : Option Value :=
  (Json.parse? text).bind ofJson?

end Value

namespace Word

/-- A word as JSON. Integers have a sign. -/
def toJson (w : Word) : Json :=
  .object [("type", .string w.kind.name), ("value", match w with
    | i32 bits => .int bits.toInt32.toInt
    | i64 bits => .int bits.toInt64.toInt
    | f32 bits => .single bits
    | f64 bits => .double bits)]

/-- The kinds of words in the order in which they may be numbered. -/
def kindNames : List String :=
  ["i32", "i64", "f32", "f64"]

/-- Reads a word. -/
def ofJson? (j : Json) : Option Word := do
  let tagged ← j.tagged? "type" "value" kindNames false
  let contents ← tagged.contents
  match tagged.tag with
  | "i32" => (contents.signed? 32).map fun n => i32 (Int32.ofInt n).toUInt32
  | "i64" => (contents.signed? 64).map fun n => i64 (Int64.ofInt n).toUInt64
  | "f32" => (contents.float? .single).map fun bits => f32 (.ofNat bits)
  | "f64" => (contents.float? .double).map fun bits => f64 (.ofNat bits)
  | _ => none

/-- Reads the text of a word. -/
def parse? (text : String) : Option Word :=
  (Json.parse? text).bind ofJson?

end Word

end ComponentAbi
