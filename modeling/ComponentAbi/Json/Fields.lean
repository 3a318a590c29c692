import ComponentAbi.Json.Basic

/-!
# Fields of JSON values

A value with named fields is an object, or an array of the first fields in their order. A field is
given at most once. In an object without further members (`closed`) every name must be that of a
field; elsewhere other members are passed over.
-/

namespace ComponentAbi

namespace Json

/-- The text of a string. -/
def string? : Json → Option String
  | string s => some s
  | _ => none

/-- The items of an array, each read with `read`. -/
def listOf? {α : Type} (read : Json → Option α) : Json → Option (List α)
  | array items => items.mapM read
  | _ => none

/-- Null, or a value read with `read`. -/
def optionOf? {α : Type} (read : Json → Option α) : Json → Option (Option α)
  | null => some none
  | j => (read j).map some

/-- What some members give for the fields with the given names. -/
def fieldsOf? (names : List String) (closed : Bool) (members : List (String × Json)) :
    Option (List (Option Json)) :=
  let once := names.all fun name => members.countP (fun m => m.1 == name) ≤ 1
  let known := members.all fun m => names.contains m.1
  if once && (known || !closed) then some (names.map fun name => members.lookup name) else none

/-- What an object gives for the fields with the given names. -/
def objectFields? (names : List String) (closed : Bool) : Json → Option (List (Option Json))
  | object members => fieldsOf? names closed members
  | _ => none

/-- What an object or an array gives for the fields with the given names. -/
def fields? (names : List String) (closed : Bool) : Json → Option (List (Option Json))
  | object members => fieldsOf? names closed members
  | array items =>
    if items.length ≤ names.length then
      some (items.map some ++ List.replicate (names.length - items.length) none)
    else none
  | _ => none

/-- A field that must be given. -/
def required {α : Type} (read : Json → Option α) (field : Option Json) : Option α :=
  field.bind read

/-- A field that need not be given. -/
def defaulted {α : Type} (read : Json → Option α) (default : α) : Option Json → Option α
  | none => some default
  | some j => read j

/-- A field that need not be given, and may be null. -/
def optional {α : Type} (read : Json → Option α) : Option Json → Option (Option α)
  | none => some none
  | some j => optionOf? read j

/-- Takes the one member of a name out of some members. -/
def takeMember? (name : String) (members : List (String × Json)) :
    Option (Json × List (String × Json)) :=
  match members.filter fun m => m.1 == name with
  | [(_, j)] => some (j, members.filter fun m => m.1 != name)
  | _ => none

end Json

end ComponentAbi
