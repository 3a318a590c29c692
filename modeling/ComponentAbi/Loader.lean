import ComponentAbi.Document.Basic
import ComponentAbi.Project

/-!
# Loading documents

Documents come in groups, one for each directory. All files of a group belong to the same package;
those that do not say so inherit it. Every declared type becomes a node, and every name that is not
a keyword becomes a reference node with the scope it is looked up from, so that a name may be used
before it is declared, or loaded.
-/

namespace ComponentAbi

/-- A document and where it was found. -/
structure SourceFile where
  /-- The path, for messages. -/
  path : String
  /-- The document. -/
  document : Document
deriving Repr

/-- The documents of one directory. -/
structure SourceGroup where
  /-- The path of the directory, for messages. -/
  directory : String
  /-- Its documents, in the order of their file names. -/
  files : List SourceFile := []
deriving Repr

namespace SourceGroup

/-- The package that the files declare, given the one that was found before. -/
def packageFrom (directory : String) : Option PackageRef → List SourceFile →
    Except LoadError (Option PackageRef)
  | found, [] => .ok found
  | found, file :: rest =>
    match file.document.package with
    | none => packageFrom directory found rest
    | some declared => do
      let ref ← (PackageRef.parse declared).mapError .name
      match found with
      | none => packageFrom directory (some ref) rest
      | some first =>
        if first.same ref then packageFrom directory found rest
        else throw (.multiplePackages first.toText ref.toText directory)

/-- The package that the group belongs to, if any of its files declares one. -/
def package (g : SourceGroup) : Except LoadError (Option PackageRef) :=
  packageFrom g.directory none g.files

end SourceGroup

/-- A step that adds to a project. A failing step keeps what was added before. -/
abbrev LoadM := ExceptT LoadError (StateM Project)

namespace LoadM

/-- Adds a type node. -/
def alloc (node : TypeNode) : LoadM TypeId :=
  modifyGet fun p =>
    let (id, arena) := p.arena.alloc node
    (id, { p with arena })

/-- Puts a type node in place of another. -/
def replace (id : TypeId) (node : TypeNode) : LoadM Unit :=
  modify fun p => { p with arena := (p.arena.replace id node).2 }

/-- Adds contents to a package. -/
def insert (package : PackageRef) (contents : PackageContents) : LoadM Unit :=
  modify fun p => { p with store := p.store.insert package contents }

end LoadM

/-- Splits a reference into the scope that its last name is looked up from, and that name. A
reference without a namespace is looked up from the scope it stands in. -/
def splitReference (scope : PackageRef) (reference : String) :
    Except LoadError (PackageRef × String) := do
  let parsed ← (PackageRef.parse reference).mapError .name
  if parsed.isIdentifierOnly then return (scope, reference)
  match parsed.splitLast? with
  | some (name, package) => return (package, name)
  | none => throw (.invalidReference reference)

namespace LoadM

/-! ### Types -/

/-- Adds the type of a name. -/
def namedType (scope : PackageRef) (name : String) : LoadM TypeId := do
  match TypeNode.ofKeyword? name with
  | some node => alloc node
  | none =>
    if name = "result" then alloc (.result none none)
    else
      let (package, name) ← liftM (splitReference scope name)
      alloc (.reference (.named package name))

mutual

/-- Adds a written type, after the types it is made of. -/
def typeExpr (scope : PackageRef) : TypeExpr → LoadM TypeId
  | .name text => namedType scope text
  | .list element => do alloc (.list (← typeExpr scope element))
  | .option payload => do alloc (.option (← typeExpr scope payload))
  | .tuple elements => do alloc (.tuple (← typeExprs scope elements))
  | .result ok err => do
    let ok ← optionalType scope ok
    let err ← optionalType scope err
    alloc (.result ok err)
  | .borrow resource => do alloc (.borrow (← namedType scope resource))
  | .own resource => namedType scope resource
  | .stream element => do alloc (.stream (← optionalType scope element))
  | .future value => do alloc (.future (← optionalType scope value))
  | .func ⟨params, results⟩ => do
    let params ← namedTypes scope params
    let results ← typeExprs scope results
    alloc (.function { params, results })
  | .interface reference => do
    let (package, name) ← liftM (splitReference scope reference)
    alloc (.interface { package, name })
termination_by structural e => e

/-- Adds written types in order. -/
def typeExprs (scope : PackageRef) : List TypeExpr → LoadM (List TypeId)
  | [] => return []
  | e :: rest => do
    let first ← typeExpr scope e
    let more ← typeExprs scope rest
    return first :: more
termination_by structural es => es

/-- Adds the written types of named parameters or fields in order. -/
def namedTypes (scope : PackageRef) : List (String × TypeExpr) → LoadM (List (String × TypeId))
  | [] => return []
  | (name, e) :: rest => do
    let first ← typeExpr scope e
    let more ← namedTypes scope rest
    return (name, first) :: more
termination_by structural fields => fields

/-- Adds a written type that may be absent. -/
def optionalType (scope : PackageRef) : Option TypeExpr → LoadM (Option TypeId)
  | none => return none
  | some e => do return some (← typeExpr scope e)
termination_by structural e => e

end

/-! ### Functions and resources -/

/-- Adds the types of a declared function. -/
def functionType (scope : PackageRef) (decl : FunctionDecl) : LoadM FunctionType := do
  let params ← namedTypes scope decl.params
  let results ← typeExprs scope decl.results
  return { params, results }

/-- Adds a declared function. -/
def function (scope : PackageRef) (decl : FunctionDecl) : LoadM TypeId := do
  alloc (.function (← functionType scope decl))

/-- Adds a declared function with its name. -/
def namedFunction (scope : PackageRef) (name : String) (decl : FunctionDecl) :
    LoadM NamedFunction := do
  return { name, func := ← function scope decl }

/-- Adds a resource with its functions. Constructors return the resource, methods take it borrowed
as their first parameter, and giving it up takes it owned. -/
def resource (scope : PackageRef) (name : String) (constructor : Option FunctionDecl)
    (methods statics : List (String × FunctionDecl)) : LoadM TypeId := do
  let typeName : TypeName := { package := scope, name }
  let id ← alloc (.resource { name := typeName })
  let borrowed ← alloc (.borrow id)
  let constructors ← constructor.toList.mapM fun decl => do
    let f ← functionType scope decl
    return { name, func := ← alloc (.function { f with results := [id] }) }
  let methods ← methods.mapM fun (name, decl) => do
    let f ← functionType scope decl
    return { name, func := ← alloc (.function { f with params := ("self", borrowed) :: f.params }) }
  let statics ← statics.mapM fun (name, decl) => namedFunction scope name decl
  let drop ← alloc (.function { params := [("self", id)], results := [] })
  replace id (.resource { name := typeName, constructors, methods, statics, drop := some drop })
  return id

/-! ### Items -/

/-- Adds the imported names of a `use`, with a reference node for each. -/
def use (scope : PackageRef) (source : String) (names : List (String × Option String))
    (d : Definitions) : LoadM Definitions := do
  let (package, container) ← liftM (splitReference scope source)
  let names ← names.mapM fun (name, bound) => do
    let type ← alloc (.reference (.used package container name))
    return ({ name, bound := bound.getD name, type } : UseName)
  return { d with
    types := names.foldl (fun types n => types.insert n.bound n.type) d.types
    uses := d.uses ++ [{ package, container, names }] }

/-- Adds a type definition or a `use`; `context` says where it stands, for messages. -/
def definition (scope : PackageRef) (context : String) (d : Definitions) (item : Item) :
    LoadM Definitions := do
  let bind (name : String) (id : TypeId) : Definitions := { d with types := d.types.insert name id }
  let typeName (name : String) : TypeName := { package := scope, name }
  match item with
  | .record name fields =>
    return bind name (← alloc (.record (typeName name) (← namedTypes scope fields)))
  | .variant name cases => do
    let cases ← cases.mapM fun (label, type) => do return (label, ← optionalType scope type)
    return bind name (← alloc (.variant (typeName name) cases))
  | .enum name cases => return bind name (← alloc (.enum (typeName name) cases))
  | .flags name labels => return bind name (← alloc (.flags (typeName name) labels))
  | .resource name constructor methods statics =>
    return bind name (← resource scope name constructor methods statics)
  | .type name type => return bind name (← typeExpr scope type)
  | .use source names => use scope source names d
  | .interface .. | .world .. | .func .. | .importing _ | .exporting _ | .including _ =>
    throw (.unexpectedItem item.keyword context)

/-- Adds an item of an interface to its definitions or functions. -/
def interfaceItem (scope : PackageRef) (context : String)
    (parts : Definitions × List NamedFunction) (item : Item) :
    LoadM (Definitions × List NamedFunction) := do
  let (definitions, functions) := parts
  match item with
  | .func name decl => return (definitions, functions ++ [← namedFunction scope name decl])
  | item => return (← definition scope context definitions item, functions)

/-- Adds an interface that is declared in the scope `package`. -/
def interface (package : PackageRef) (name : String) (items : List Item) : LoadM Interface := do
  let context := "interface '" ++ name ++ "'"
  let (definitions, functions) ←
    items.foldlM (interfaceItem (package.push name) context) ({}, [])
  let type ← alloc (.interface { package, name })
  return { name, package, definitions, functions, type }

/-- Adds an import or export of the world with scope `scope` in `package`. An interface that is
declared on the spot becomes one of the world's own. -/
def worldItem (package scope : PackageRef) (definitions : Definitions) (target : WorldItemDecl) :
    LoadM (Definitions × WorldItem) := do
  match target with
  | .function name decl =>
    return (definitions, { name, kind := .function (← function scope decl) })
  | .inline name items => do
    let i ← interface scope name items
    return ({ definitions with interfaces := definitions.interfaces.insert name i },
      { name, kind := .interface scope name })
  | .interface reference => do
    let (package, name) ← liftM (splitReference package reference)
    return (definitions, { name := reference, kind := .interface package name })

/-- The parts of a world while its items are added. -/
structure WorldParts where
  /-- Types and interfaces. -/
  definitions : Definitions := {}
  /-- Imports. -/
  imports : List WorldItem := []
  /-- Exports. -/
  exports : List WorldItem := []
  /-- Included worlds. -/
  includes : List IncludeDecl := []

/-- Adds an item of a world to its parts. -/
def worldPart (package scope : PackageRef) (context : String) (w : WorldParts) (item : Item) :
    LoadM WorldParts := do
  match item with
  | .importing target =>
    let (definitions, i) ← worldItem package scope w.definitions target
    return { w with definitions, imports := w.imports ++ [i] }
  | .exporting target =>
    let (definitions, i) ← worldItem package scope w.definitions target
    return { w with definitions, exports := w.exports ++ [i] }
  | .including reference =>
    let (package, world) ← liftM (splitReference package reference)
    return { w with includes := w.includes ++ [{ package, world }] }
  | item => return { w with definitions := ← definition scope context w.definitions item }

/-- Adds a world of a package. -/
def world (package : PackageRef) (name : String) (items : List Item) : LoadM World := do
  let context := "world '" ++ name ++ "'"
  let w ← items.foldlM (worldPart package (package.push name) context) {}
  let type ← alloc (.world { package, name })
  return { name, package, definitions := w.definitions, imports := w.imports, exports := w.exports,
           includes := w.includes, type }

/-- Adds an item of a package to its contents. -/
def packageItem (package : PackageRef) (context : String) (c : PackageContents) (item : Item) :
    LoadM PackageContents := do
  match item with
  | .interface name items => do
    let i ← interface package name items
    return { c with definitions :=
      { c.definitions with interfaces := c.definitions.interfaces.insert name i } }
  | .world name items => do
    let w ← world package name items
    return { c with worlds := c.worlds.insert name w }
  | item => return { c with definitions := ← definition package context c.definitions item }

/-- The contents of a package that some items declare. -/
def packageItems (package : PackageRef) (items : List Item) : LoadM PackageContents :=
  items.foldlM (packageItem package ("package '" ++ package.toText ++ "'")) {}

/-! ### Groups -/

/-- Adds a document of a group that belongs to `package`. -/
def addFile (package : Option PackageRef) (file : SourceFile) : LoadM Unit := do
  if !file.document.items.isEmpty then
    match package with
    | none => throw (.missingPackage file.path)
    | some package => insert package (← packageItems package file.document.items)
  file.document.packages.forM fun nested => do
    let package ← liftM ((PackageRef.parse nested.package).mapError LoadError.name)
    insert package (← packageItems package nested.items)

/-- Adds the documents of a group. That they belong to one package is checked first. -/
def addGroup (g : SourceGroup) : LoadM Unit := do
  let package ← liftM g.package
  g.files.forM (addFile package)

end LoadM

namespace Project

/-- The project of some groups. -/
def ofGroups (groups : List SourceGroup) : Except LoadError Project :=
  let (answer, p) := (groups.forM LoadM.addGroup).run.run {}
  answer.map fun () => p

end Project

end ComponentAbi
