import ComponentAbi.Document.Basic
import ComponentAbi.Json.Basic

/-!
# Writing documents

The JSON form of a document. Absent parts are left out, except for the element type of streams and
futures, which is then null.
-/

namespace ComponentAbi

/-- A name with a type. -/
def namedTypeToJson (name : String) (type : Json) : Json :=
  .object [("name", .string name), ("type", type)]

namespace TypeExpr

mutual

/-- A type as JSON. -/
def toJson : TypeExpr → Json
  | name text => .string text
  | list element => .object [("list", element.toJson)]
  | option payload => .object [("option", payload.toJson)]
  | tuple elements => .object [("tuple", .array (listToJson elements))]
  | result ok err => .object [("result", .object (memberToJson "ok" ok ++ memberToJson "err" err))]
  | borrow resource => .object [("borrow", .string resource)]
  | own resource => .object [("own", .string resource)]
  | stream element => .object [("stream", optionToJson element)]
  | future value => .object [("future", optionToJson value)]
  | func ⟨params, results⟩ =>
    .object [("func", .object [
      ("params", .array (paramsToJson params)),
      ("results", .array (listToJson results))])]
  | interface reference => .object [("interface", .string reference)]
termination_by structural e => e

/-- Types in order. -/
def listToJson : List TypeExpr → List Json
  | [] => []
  | e :: rest => e.toJson :: listToJson rest
termination_by structural es => es

/-- Parameters in order. -/
def paramsToJson : List (String × TypeExpr) → List Json
  | [] => []
  | (label, e) :: rest => namedTypeToJson label e.toJson :: paramsToJson rest
termination_by structural params => params

/-- A type that may be absent, as null. -/
def optionToJson : Option TypeExpr → Json
  | none => .null
  | some e => e.toJson
termination_by structural e => e

/-- A type that may be absent, as a member that is left out. -/
def memberToJson (label : String) : Option TypeExpr → List (String × Json)
  | none => []
  | some e => [(label, e.toJson)]
termination_by structural e => e

end

end TypeExpr

namespace FunctionDeclOf

/-- The members of a function declaration. -/
def members (decl : FunctionDecl) : List (String × Json) :=
  [("params", .array (TypeExpr.paramsToJson decl.params)),
    ("results", .array (TypeExpr.listToJson decl.results))]

/-- A function declaration as JSON. -/
def toJson (decl : FunctionDecl) : Json :=
  .object decl.members

/-- A function declaration with its name. -/
def namedMembers (name : String) (decl : FunctionDecl) : List (String × Json) :=
  ("name", .string name) :: decl.members

end FunctionDeclOf

namespace Item

/-- Functions with their names. -/
def functionsToJson (functions : List (String × FunctionDecl)) : Json :=
  .listOf (fun (name, decl) => .object (FunctionDeclOf.namedMembers name decl)) functions

/-- A case of a variant. -/
def caseToJson (label : String) (payload : Option TypeExpr) : Json :=
  .object (("name", .string label) :: Json.optionalMember "type" TypeExpr.toJson payload)

/-- A name of a `use`. -/
def usedNameToJson (name : String) (bound : Option String) : Json :=
  .object (("name", .string name) :: Json.optionalMember "as" .string bound)

mutual

/-- The members of an item besides its keyword. -/
def members : Item → List (String × Json)
  | interface name items | world name items =>
    [("name", .string name), ("items", .array (listToJson items))]
  | record name fields =>
    [("name", .string name), ("fields", .array (TypeExpr.paramsToJson fields))]
  | variant name cases =>
    [("name", .string name),
      ("cases", .listOf (fun (label, payload) => caseToJson label payload) cases)]
  | enum name cases => [("name", .string name), ("cases", .listOf .string cases)]
  | flags name labels => [("name", .string name), ("flags", .listOf .string labels)]
  | resource name constructor methods statics =>
    ("name", .string name) :: Json.optionalMember "constructor" FunctionDeclOf.toJson constructor
      ++ [("methods", functionsToJson methods), ("statics", functionsToJson statics)]
  | type name definition => [("name", .string name), ("type", definition.toJson)]
  | use source names =>
    [("from", .string source),
      ("names", .listOf (fun (name, bound) => usedNameToJson name bound) names)]
  | func name decl => FunctionDeclOf.namedMembers name decl
  | importing target | exporting target => targetMembers target
  | including reference => [("world", .string reference)]
termination_by structural i => i

/-- The members of an import or export. -/
def targetMembers : WorldItemDeclOf Item → List (String × Json)
  | .function name decl => [("name", .string name), ("func", decl.toJson)]
  | .inline name items => [("name", .string name), ("items", .array (listToJson items))]
  | .interface reference => [("interface", .string reference)]
termination_by structural target => target

/-- Items in order. -/
def listToJson : List Item → List Json
  | [] => []
  | i :: rest => .object (("kind", .string i.keyword) :: i.members) :: listToJson rest
termination_by structural items => items

end

/-- An item as JSON. -/
def toJson (i : Item) : Json :=
  .object (("kind", .string i.keyword) :: i.members)

end Item

namespace NestedPackage

/-- A package as JSON. -/
def toJson (p : NestedPackage) : Json :=
  .object [("package", .string p.package), ("items", .array (Item.listToJson p.items))]

end NestedPackage

namespace Document

/-- A document as JSON. -/
def toJson (d : Document) : Json :=
  .object (Json.optionalMember "package" .string d.package
    ++ [("items", .array (Item.listToJson d.items))]
    ++ if d.packages.isEmpty then [] else [("packages", .listOf NestedPackage.toJson d.packages)])

end Document

end ComponentAbi
