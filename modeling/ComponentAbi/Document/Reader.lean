import ComponentAbi.Document.Basic
import ComponentAbi.Json.Fields
import ComponentAbi.Json.Reader

/-!
# Reading documents

A document is read from its JSON form. Documents, packages, fields, cases, parameters, imported
names and types reject members that they do not know; items and functions pass them over. Values
with fields may be written as arrays, and items as arrays that start with their keyword; only
functions that have a name, imports and exports have to be objects.
-/

namespace ComponentAbi

open Json

/-- A name with a type. -/
def namedTypeOfJson? (read : Json → Option TypeExpr) (j : Json) : Option (String × TypeExpr) :=
  match j.fields? ["name", "type"] true with
  | some [name, type] => do return (← required string? name, ← required read type)
  | _ => none

namespace FunctionDeclOf

/-- The parameters and results given as two fields. -/
def ofFields? (read : Json → Option TypeExpr) (params results : Option Json) :
    Option FunctionDecl := do
  let params ← defaulted (listOf? (namedTypeOfJson? read)) [] params
  let results ← defaulted (listOf? read) [] results
  return { params, results }

/-- Reads parameters and results. -/
def ofJson? (read : Json → Option TypeExpr) (j : Json) : Option FunctionDecl :=
  match j.fields? ["params", "results"] false with
  | some [params, results] => ofFields? read params results
  | _ => none

/-- Reads a name with parameters and results. -/
def namedOfJson? (read : Json → Option TypeExpr) (j : Json) : Option (String × FunctionDecl) :=
  match j.objectFields? ["name", "params", "results"] false with
  | some [name, params, results] => do
    return (← required string? name, ← ofFields? read params results)
  | _ => none

end FunctionDeclOf

namespace TypeExpr

/-- Reads a type that is nested less than `depth` deep. -/
def ofJsonWithin? : Nat → Json → Option TypeExpr
  | 0, _ => none
  | depth + 1, j =>
    let inner := ofJsonWithin? depth
    match j with
    | .string text => some (name text)
    | .object [("list", j)] => (inner j).map list
    | .object [("option", j)] => (inner j).map option
    | .object [("tuple", j)] => (listOf? inner j).map tuple
    | .object [("result", j)] =>
      match j.fields? ["ok", "err"] true with
      | some [ok, err] => do return result (← optional inner ok) (← optional inner err)
      | _ => none
    | .object [("borrow", j)] => j.string?.map borrow
    | .object [("own", j)] => j.string?.map own
    | .object [("stream", j)] => (optionOf? inner j).map stream
    | .object [("future", j)] => (optionOf? inner j).map future
    | .object [("func", j)] => (FunctionDeclOf.ofJson? inner j).map func
    | .object [("interface", j)] => j.string?.map interface
    | _ => none

/-- Reads a type. -/
def ofJson? (j : Json) : Option TypeExpr :=
  ofJsonWithin? (j.depth + 1) j

end TypeExpr

namespace WorldItemDeclOf

/-- Reads an import or export: a function or an inline interface needs a name, and the first reading
that is complete counts. -/
def ofJson? (items : Json → Option (List Item)) (j : Json) : Option WorldItemDecl :=
  let asFunction := match j.objectFields? ["name", "func"] false with
    | some [name, decl] => do
      return function (← required string? name)
        (← required (FunctionDeclOf.ofJson? TypeExpr.ofJson?) decl)
    | _ => none
  let asInline := match j.objectFields? ["name", "items"] false with
    | some [name, body] => do return inline (← required string? name) (← required items body)
    | _ => none
  let asInterface := match j.objectFields? ["interface"] false with
    | some [reference] => (required string? reference).map interface
    | _ => none
  asFunction.or (asInline.or asInterface)

end WorldItemDeclOf

namespace Item

/-- The keyword that a member `kind` stands for. An item inside another one may give the number of
its keyword. -/
def keywordOfJson? (nested : Bool) : Json → Option String
  | .string keyword => some keyword
  | .number n =>
    match nested, n.value? with
    | true, some (.integer (.ofNat i)) => keywords[i]?
    | _, _ => none
  | _ => none

/-- Reads one case of a variant. -/
def caseOfJson? (j : Json) : Option (String × Option TypeExpr) :=
  match j.fields? ["name", "type"] true with
  | some [label, payload] => do
    return (← required string? label, ← optional TypeExpr.ofJson? payload)
  | _ => none

/-- Reads one name of a `use`. -/
def usedNameOfJson? (j : Json) : Option (String × Option String) :=
  match j.fields? ["name", "as"] true with
  | some [name, bound] => do return (← required string? name, ← optional string? bound)
  | _ => none

/-- Reads an item of a keyword from what is left of its JSON form without the keyword, with `items`
for the items inside it. -/
def ofBody? (items : Json → Option (List Item)) (keyword : String) (body : Json) : Option Item :=
  let readType := TypeExpr.ofJson?
  let fields (names : List String) := body.fields? names false
  match keyword with
  | "interface" =>
    match fields ["name", "items"] with
    | some [name, inside] => do
      return interface (← required string? name) (← defaulted items [] inside)
    | _ => none
  | "world" =>
    match fields ["name", "items"] with
    | some [name, inside] => do
      return world (← required string? name) (← defaulted items [] inside)
    | _ => none
  | "record" =>
    match fields ["name", "fields"] with
    | some [name, parts] => do
      return record (← required string? name)
        (← defaulted (listOf? (namedTypeOfJson? readType)) [] parts)
    | _ => none
  | "variant" =>
    match fields ["name", "cases"] with
    | some [name, cases] => do
      return variant (← required string? name) (← required (listOf? caseOfJson?) cases)
    | _ => none
  | "enum" =>
    match fields ["name", "cases"] with
    | some [name, cases] => do
      return enum (← required string? name) (← required (listOf? string?) cases)
    | _ => none
  | "flags" =>
    match fields ["name", "flags"] with
    | some [name, labels] => do
      return flags (← required string? name) (← defaulted (listOf? string?) [] labels)
    | _ => none
  | "resource" =>
    let functions := listOf? (FunctionDeclOf.namedOfJson? readType)
    match fields ["name", "constructor", "methods", "statics"] with
    | some [name, constructor, methods, statics] => do
      return resource (← required string? name)
        (← optional (FunctionDeclOf.ofJson? readType) constructor)
        (← defaulted functions [] methods) (← defaulted functions [] statics)
    | _ => none
  | "type" =>
    match fields ["name", "type"] with
    | some [name, definition] => do
      return Item.type (← required string? name) (← required readType definition)
    | _ => none
  | "use" =>
    match fields ["from", "names"] with
    | some [source, names] => do
      return use (← required string? source) (← required (listOf? usedNameOfJson?) names)
    | _ => none
  | "func" => (FunctionDeclOf.namedOfJson? readType body).map fun (name, decl) => func name decl
  | "import" => (WorldItemDeclOf.ofJson? items body).map importing
  | "export" => (WorldItemDeclOf.ofJson? items body).map exporting
  | "include" =>
    match fields ["world"] with
    | some [reference] => (required string? reference).map including
    | _ => none
  | _ => none

/-- Reads an item with items nested less than `depth` deep. -/
def ofJsonWithin? : Nat → Bool → Json → Option Item
  | 0, _, _ => none
  | depth + 1, nested, j =>
    let items := listOf? (ofJsonWithin? depth true)
    match j with
    | .object members => do
      let (kind, members) ← takeMember? "kind" members
      ofBody? items (← keywordOfJson? nested kind) (.object members)
    | .array (kind :: fields) => do
      ofBody? items (← keywordOfJson? nested kind) (.array fields)
    | _ => none

/-- Reads an item that is not inside another one. -/
def ofJson? (j : Json) : Option Item :=
  ofJsonWithin? (j.depth + 1) false j

end Item

namespace NestedPackage

/-- Reads a package. -/
def ofJson? (j : Json) : Option NestedPackage :=
  match j.fields? ["package", "items"] true with
  | some [package, items] => do
    return { package := ← required string? package
             items := ← defaulted (listOf? Item.ofJson?) [] items }
  | _ => none

end NestedPackage

namespace Document

/-- Reads a document. -/
def ofJson? (j : Json) : Option Document :=
  if !j.isReadable then none
  else match j.fields? ["package", "items", "packages"] true with
    | some [package, items, packages] => do
      return { package := ← optional string? package
               items := ← defaulted (listOf? Item.ofJson?) [] items
               packages := ← defaulted (listOf? NestedPackage.ofJson?) [] packages }
    | _ => none

/-- Reads the text of a document. -/
def parse? (text : String) : Option Document :=
  (Json.parse? text).bind ofJson?

end Document

end ComponentAbi
