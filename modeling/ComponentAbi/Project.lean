import ComponentAbi.Abi
import ComponentAbi.Direction
import ComponentAbi.Failure
import ComponentAbi.Numerals

/-!
# Projects

A project is a type graph with the packages it belongs to. Types and worlds are found by qualified
references such as `ns:geo/shapes.point@1.0.0`, and a world is expanded into the functions that it
imports and exports (`Project.worldFunctions`).
-/

namespace ComponentAbi

/-- A function that a world imports or exports. -/
structure WorldFunction where
  /-- Imported or exported. -/
  direction : Direction
  /-- The module it is imported from or exported in; none for a function of the world itself. -/
  module : Option String
  /-- Its name. Functions attached to a resource have a name that says how. -/
  name : String
  /-- The function node. -/
  func : TypeId
deriving DecidableEq, Repr

namespace WorldFunction

/-- Two entries are for the same function: a world has at most one for each direction, module and
name. -/
def sameEntry (f g : WorldFunction) : Bool :=
  f.direction == g.direction && f.module == g.module && f.name == g.name

/-- Keeps the first entry for each function. -/
def distinct (functions : List WorldFunction) : List WorldFunction :=
  (functions.foldl (fun kept f => if kept.any f.sameEntry then kept else f :: kept) []).reverse

end WorldFunction

/-- A type graph and the packages it belongs to. -/
structure Project where
  /-- The type nodes. -/
  arena : TypeArena := {}
  /-- The packages. -/
  store : PackageStore := {}
deriving Repr, Inhabited

namespace Project

/-- The types with what their references resolve in. -/
def abi (p : Project) : Abi where
  arena := p.arena
  store? := some p.store

/-- The node with a shape of its own that a node stands for. -/
def resolve (p : Project) (id : TypeId) : Except ResolveError TypeId :=
  p.store.resolve p.arena id

/-! ### Types -/

/-- Splits a type reference without version into the written container and the local name. The name
follows the last dot, or for a reference without dots the last slash. -/
def splitTypeReference (reference path : String) : Except Failure (String × String) :=
  match Text.cutLast '.' path with
  | some parts => .ok parts
  | none => do
    let parsed ← (PackageRef.parse path).mapError .name
    match parsed.splitLast? with
    | some (name, container) => return (container.toText, name)
    | none =>
      throw (.resolve (.unresolvedType reference "" ["not a qualified type reference"]))

/-- The node that a qualified reference names: container, name and an optional version. -/
def findNamed (p : Project) (reference : String) : Except Failure TypeId := do
  let (path, suffix) := match Text.cutLast '@' reference with
    | some (path, version) => (path, "@" ++ version)
    | none => (reference, "")
  let (container, name) ← splitTypeReference reference path
  let package ← (PackageRef.parse (container ++ suffix)).mapError .name
  (p.store.findType package name).mapError .resolve

/-- Finds a type by a qualified reference. -/
def findType (p : Project) (reference : String) : Except Failure TypeId := do
  (p.resolve (← p.findNamed reference)).mapError .resolve

/-! ### Interfaces and worlds -/

/-- All interfaces that are not nested in others or in worlds, by package, version and name. -/
def interfaces (p : Project) : List Interface :=
  p.store.packages.flatMap fun package =>
    package.versions.flatMap fun (_, contents) => contents.definitions.interfaces.values

/-- The definitions that names lead to from the contents of a package: the first name is that of a
world or else of an interface, and the others are those of nested interfaces. -/
def definitionsAt? (contents : PackageContents) : List String → Option Definitions
  | [] => some contents.definitions
  | name :: names => do
    let outer ← ((contents.worlds.find? name).map (·.definitions)).or
      ((contents.definitions.interfaces.find? name).map (·.definitions))
    names.foldlM (fun d name => (d.interfaces.find? name).map (·.definitions)) outer

/-- The interface `name` of the definitions that the first `depth` of `names` lead to, or else ever
fewer of them. -/
def interfaceWithin (contents : PackageContents) (names : List String) (name : String) :
    Nat → Option Interface
  | 0 => contents.definitions.interfaces.find? name
  | depth + 1 =>
    ((definitionsAt? contents (names.take (depth + 1))).bind (·.interfaces.find? name)).or
      (interfaceWithin contents names name depth)

/-- The interface `name` in the places of one package name. -/
def interfaceIn (p : Project) (name : String) (package : PackageRef) (names : List String) :
    Except (List String) Interface :=
  match p.store.lookup package with
  | .error unknown => .error [unknown.message]
  | .ok contents =>
    match interfaceWithin contents names name names.length with
    | some found => .ok found
    | none => .error ["not found in '" ++ package.toText ++ "'"]

/-- The interface that a name stands for in a scope. Worlds are not interfaces, so a world of the
same name does not hide one. -/
def findInterface (p : Project) (package : PackageRef) (name : String) :
    Except ResolveError Interface :=
  (PackageStore.outwards (p.interfaceIn name) package).mapError fun attempts =>
    .unresolvedContainer name package.toText attempts

/-- The world of a name in a package. -/
def worldIn (p : Project) (package : PackageRef) (name : String) : Except ResolveError World := do
  let contents ← p.store.lookup package
  match contents.worlds.find? name with
  | some world => return world
  | none => throw (.unknownWorld (package.push name).toText)

/-- Finds a world by a qualified reference. -/
def world (p : Project) (reference : String) : Except Failure World := do
  let parsed ← (PackageRef.parse reference).mapError .name
  match parsed.splitLast? with
  | none => throw (.resolve (.unknownWorld reference))
  | some (name, package) => (p.worldIn package name).mapError .resolve

/-! ### Functions -/

/-- The functions attached to a resource that is known as `name`, with the names they are imported
and exported under. -/
def resourceFunctions (name : String) (r : ResourceType) : List (String × TypeId) :=
  r.constructors.map (fun f => ("[constructor]" ++ name, f.func))
    ++ r.methods.map (fun f => ("[method]" ++ name ++ "." ++ f.name, f.func))
    ++ r.statics.map (fun f => ("[static]" ++ name ++ "." ++ f.name, f.func))
    ++ (r.drop.map fun func => ("[resource-drop]" ++ name, func)).toList

/-- The functions of an interface under a module name: its own in order, then those attached to its
resources in the order of their names. -/
def interfaceFunctions (p : Project) (i : Interface) (module : String) (direction : Direction) :
    List WorldFunction :=
  let attached := i.definitions.types.entries.flatMap fun (name, id) =>
    match p.arena.get? id with
    | some (.resource r) => resourceFunctions name r
    | _ => []
  (i.functions.map (fun f => (f.name, f.func)) ++ attached).map fun (name, func) =>
    { direction, module := some module, name, func }

/-- The functions that one item of the world with scope `scope` stands for. An interface that is
declared in the world itself is known by the name of the item. -/
def itemFunctions (p : Project) (scope : PackageRef) (direction : Direction) (item : WorldItem) :
    Except ResolveError (List WorldFunction) :=
  match item.kind with
  | .function func => .ok [{ direction, module := none, name := item.name, func }]
  | .interface package name => do
    let found ← p.findInterface package name
    let module := if package.same scope then item.name else found.moduleName
    return p.interfaceFunctions found module direction

/-- The functions of a world and of the worlds it includes, at most `depth` of them inside each
other. `visiting` are the worlds whose includes are being expanded. -/
def expandWorld (p : Project) : Nat → List String → World →
    Except ResolveError (List WorldFunction)
  | 0, _, w => .error (.includeCycle (w.package.push w.name).toText)
  | depth + 1, visiting, w => do
    let scope := w.package.push w.name
    if scope.toText ∈ visiting then throw (.includeCycle scope.toText)
    let imports ← w.imports.mapM (p.itemFunctions scope .imported)
    let exports ← w.exports.mapM (p.itemFunctions scope .exported)
    let included ← w.includes.mapM fun i => do
      expandWorld p depth (scope.toText :: visiting) (← p.worldIn i.package i.world)
    return imports.flatten ++ exports.flatten ++ included.flatten

/-- Number of worlds in all packages. -/
def worldCount (p : Project) : Nat :=
  (p.store.packages.map fun package =>
    (package.versions.map fun (_, contents) => contents.worlds.entries.length).sum).sum

/-- The functions that a world imports and exports, those of included worlds among them, each of
them once. Worlds that include each other without a cycle are nested no deeper than there are
worlds. -/
def worldFunctions (p : Project) (reference : String) : Except Failure (List WorldFunction) := do
  let w ← p.world reference
  let functions ← (p.expandWorld (p.worldCount + 1) [] w).mapError .resolve
  return WorldFunction.distinct functions

end Project

end ComponentAbi
