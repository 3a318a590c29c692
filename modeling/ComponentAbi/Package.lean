import ComponentAbi.NameMap
import ComponentAbi.TypeGraph

/-!
# Packages

What a package holds: type definitions, interfaces that may nest, and worlds. A package may be
loaded in several versions (`Package`), and the contents inserted for one version are merged
(`Package.insert`).
-/

namespace ComponentAbi

/-- One imported name of a `use` declaration. -/
structure UseName where
  /-- The name in the container it comes from. -/
  name : String
  /-- The name it is bound to. -/
  bound : String
  /-- The reference node bound to it. -/
  type : TypeId
deriving DecidableEq, Repr

/-- A `use` declaration: names taken from an interface or world. -/
structure UseDecl where
  /-- The scope from which the container is looked up. -/
  package : PackageRef
  /-- The name of the container. -/
  container : String
  /-- What is taken from it. -/
  names : List UseName
deriving DecidableEq, Repr

/-- The type definitions of one scope and the interfaces nested in it. -/
structure DefinitionsOf (ι : Type) where
  /-- Types by name. -/
  types : NameMap TypeId := {}
  /-- Interfaces by name. -/
  interfaces : NameMap ι := {}
  /-- The `use` declarations, in order. -/
  uses : List UseDecl := []
deriving Repr, Inhabited

/-- A named group of types and functions. -/
structure Interface where
  /-- Its own name. -/
  name : String
  /-- The scope that declares it. -/
  package : PackageRef
  /-- Types and nested interfaces. -/
  definitions : DefinitionsOf Interface
  /-- Functions, in order. -/
  functions : List NamedFunction
  /-- The node that stands for the interface. -/
  type : TypeId
deriving Repr

/-- The definitions of one scope. -/
abbrev Definitions := DefinitionsOf Interface

namespace DefinitionsOf

variable {ι : Type}

/-- Adds everything of `later`, which replaces earlier definitions of the same names. -/
def merge (d later : DefinitionsOf ι) : DefinitionsOf ι where
  types := d.types.merge later.types
  interfaces := d.interfaces.merge later.interfaces
  uses := d.uses ++ later.uses

end DefinitionsOf

namespace Interface

/-- The name under which the functions of the interface are imported and exported. -/
def moduleName (i : Interface) : String :=
  (i.package.push i.name).toText

end Interface

/-- What a world import or export stands for. -/
inductive WorldItemKind where
  /-- A single function. -/
  | function (type : TypeId)
  /-- The interface of this name, looked up from `package` outwards. -/
  | interface (package : PackageRef) (name : String)
deriving DecidableEq, Repr

/-- An import or export of a world. -/
structure WorldItem where
  /-- The name it is imported or exported under. -/
  name : String
  /-- What it is. -/
  kind : WorldItemKind
deriving DecidableEq, Repr

/-- A world whose imports and exports become those of another. -/
structure IncludeDecl where
  /-- The package that holds the world. -/
  package : PackageRef
  /-- The name of the world. -/
  world : String
deriving DecidableEq, Repr

/-- A set of imports and exports. -/
structure World where
  /-- Its own name. -/
  name : String
  /-- The package that declares it. -/
  package : PackageRef
  /-- Types and interfaces declared inside. -/
  definitions : Definitions
  /-- Imports, in order. -/
  imports : List WorldItem
  /-- Exports, in order. -/
  exports : List WorldItem
  /-- Included worlds, in order. -/
  includes : List IncludeDecl
  /-- The node that stands for the world. -/
  type : TypeId
deriving Repr

/-- The contents of one version of a package. -/
structure PackageContents where
  /-- Worlds by name. -/
  worlds : NameMap World := {}
  /-- Types and interfaces. -/
  definitions : Definitions := {}
deriving Repr, Inhabited

namespace PackageContents

/-- Adds everything of `later`, which replaces earlier definitions of the same names. -/
def merge (c later : PackageContents) : PackageContents where
  worlds := c.worlds.merge later.worlds
  definitions := c.definitions.merge later.definitions

end PackageContents

/-- A package in all its loaded versions. -/
structure Package where
  /-- The unversioned name. -/
  name : PackageName
  /-- Contents by version, in ascending order; contents declared without a version come first. -/
  versions : List (Option Version × PackageContents) := []
deriving Repr

namespace Package

/-- Order of the versions of a package: none before all others. -/
def compareVersions : Option Version → Option Version → Ordering
  | none, none => .eq
  | none, some _ => .lt
  | some _, none => .gt
  | some v, some w => v.compare w

/-- Merges contents into an ordered list of versions. A version that is already there keeps its
first spelling. -/
def insertContents (version : Option Version) (contents : PackageContents) :
    List (Option Version × PackageContents) → List (Option Version × PackageContents)
  | [] => [(version, contents)]
  | (other, old) :: rest =>
    match compareVersions version other with
    | .eq => (other, old.merge contents) :: rest
    | .lt => (version, contents) :: (other, old) :: rest
    | .gt => (other, old) :: insertContents version contents rest

/-- Adds contents to a version. -/
def insert (p : Package) (version : Option Version) (contents : PackageContents) : Package :=
  { p with versions := insertContents version contents p.versions }

/-- The contents of a version. -/
def contents? (p : Package) (version : Option Version) : Option PackageContents :=
  (p.versions.find? fun entry => compareVersions version entry.1 == .eq).map (·.2)

/-- The greatest version with its contents; contents without a version are the least. -/
def latest? (p : Package) : Option (Option Version × PackageContents) :=
  p.versions.getLast?

end Package

/-- The loaded packages, in ascending order of their names. -/
structure PackageStore where
  /-- One package for each name. -/
  packages : List Package := []
deriving Repr, Inhabited

namespace PackageStore

/-- The package of a name. -/
def find? (s : PackageStore) (name : PackageName) : Option Package :=
  s.packages.find? fun p => p.name == name

/-- Adds contents to a package of an ordered list. -/
def insertPackage (name : PackageName) (version : Option Version) (contents : PackageContents) :
    List Package → List Package
  | [] => [Package.insert { name } version contents]
  | p :: rest =>
    match name.compare p.name with
    | .eq => p.insert version contents :: rest
    | .lt => Package.insert { name } version contents :: p :: rest
    | .gt => p :: insertPackage name version contents rest

/-- Adds contents to the package that `ref` names. -/
def insert (s : PackageStore) (ref : PackageRef) (contents : PackageContents) : PackageStore :=
  ⟨insertPackage ref.name ref.version contents s.packages⟩

/-- The contents that `ref` names: those of its version, and for a reference without version those
declared without one or else those of the greatest version. -/
def contents? (s : PackageStore) (ref : PackageRef) : Option PackageContents := do
  let p ← s.find? ref.name
  match ref.version with
  | some version => p.contents? (some version)
  | none => (p.contents? none).or (p.latest?.map (·.2))

end PackageStore

end ComponentAbi
