/-!
# Documents

A document declares items of a package: interfaces and worlds with types and functions in them.
Nothing in a document is resolved; types are named by text.
-/

namespace ComponentAbi

/-- Parameters and results of a declared function, with types of type `τ`. -/
structure FunctionDeclOf (τ : Type) where
  /-- Named parameters. -/
  params : List (String × τ) := []
  /-- Results. -/
  results : List τ := []
deriving Repr

/-- A type as it is written. -/
inductive TypeExpr where
  /-- A keyword, a local name, or a qualified name. -/
  | name (text : String)
  | list (element : TypeExpr)
  | option (payload : TypeExpr)
  | tuple (elements : List TypeExpr)
  | result (ok err : Option TypeExpr)
  /-- A borrowed handle to the resource of a name. -/
  | borrow (resource : String)
  /-- An owned handle to the resource of a name. -/
  | own (resource : String)
  | stream (element : Option TypeExpr)
  | future (value : Option TypeExpr)
  | func (decl : FunctionDeclOf TypeExpr)
  /-- The interface of a name. -/
  | interface (reference : String)
deriving Repr

/-- Parameters and results of a declared function. -/
abbrev FunctionDecl := FunctionDeclOf TypeExpr

/-- What a world imports or exports, with items of type `ι`. -/
inductive WorldItemDeclOf (ι : Type) where
  /-- A function of its own. -/
  | function (name : String) (decl : FunctionDecl)
  /-- An interface that is declared on the spot. -/
  | inline (name : String) (items : List ι)
  /-- The interface of a name. -/
  | interface (reference : String)
deriving Repr

/-- An item of a document. -/
inductive Item where
  | interface (name : String) (items : List Item)
  | world (name : String) (items : List Item)
  | record (name : String) (fields : List (String × TypeExpr))
  | variant (name : String) (cases : List (String × Option TypeExpr))
  | enum (name : String) (cases : List String)
  | flags (name : String) (labels : List String)
  | resource (name : String) (constructor : Option FunctionDecl)
      (methods statics : List (String × FunctionDecl))
  /-- Another name for a type. -/
  | type (name : String) (definition : TypeExpr)
  /-- Takes names from an interface or world, each perhaps under another name. -/
  | use (source : String) (names : List (String × Option String))
  | func (name : String) (decl : FunctionDecl)
  /-- An import of a world. -/
  | importing (target : WorldItemDeclOf Item)
  /-- An export of a world. -/
  | exporting (target : WorldItemDeclOf Item)
  /-- Includes another world. -/
  | including (world : String)
deriving Repr

/-- An import or export of a world. -/
abbrev WorldItemDecl := WorldItemDeclOf Item

namespace Item

/-- The keyword of an item. -/
def keyword : Item → String
  | interface .. => "interface"
  | world .. => "world"
  | record .. => "record"
  | variant .. => "variant"
  | enum .. => "enum"
  | flags .. => "flags"
  | resource .. => "resource"
  | type .. => "type"
  | use .. => "use"
  | func .. => "func"
  | importing _ => "import"
  | exporting _ => "export"
  | including _ => "include"

/-- All keywords of items, in the order in which items may be numbered. -/
def keywords : List String :=
  ["interface", "world", "record", "variant", "enum", "flags", "resource", "type", "use", "func",
    "import", "export", "include"]

end Item

/-- A package that is declared inside a document. -/
structure NestedPackage where
  /-- The package reference. -/
  package : String
  /-- Its items. -/
  items : List Item := []
deriving Repr

/-- A document. -/
structure Document where
  /-- The package that the document belongs to, if it says so. -/
  package : Option String := none
  /-- Items of that package. -/
  items : List Item := []
  /-- Further packages. -/
  packages : List NestedPackage := []
deriving Repr, Inhabited

end ComponentAbi
