import ComponentAbi.PackageName

/-!
# The type graph

Type nodes live in an arena and refer to each other by index (`TypeId`), so a type may contain
itself. A node may also be a reference that has to be looked up by name (`Reference`) before the
shape behind it is known.
-/

namespace ComponentAbi

/-- The index of a type node in its arena. -/
structure TypeId where
  /-- Position in the arena. -/
  index : Nat
deriving DecidableEq, Repr, Inhabited, Ord

namespace TypeId

/-- The written form, `#` and the index. -/
def toText (id : TypeId) : String :=
  "#" ++ toString id.index

end TypeId

/-- The types of single machine values. -/
inductive Scalar where
  | bool
  | u8
  | u16
  | u32
  | u64
  | s8
  | s16
  | s32
  | s64
  | f32
  | f64
  | char
deriving DecidableEq, Repr, Inhabited

namespace Scalar

/-- The keyword of a scalar type. -/
def keyword : Scalar → String
  | bool => "bool"
  | u8 => "u8"
  | u16 => "u16"
  | u32 => "u32"
  | u64 => "u64"
  | s8 => "s8"
  | s16 => "s16"
  | s32 => "s32"
  | s64 => "s64"
  | f32 => "f32"
  | f64 => "f64"
  | char => "char"

/-- The scalar type of a keyword. The floating-point types have a second spelling. -/
def ofKeyword? : String → Option Scalar
  | "bool" => some bool
  | "u8" => some u8
  | "u16" => some u16
  | "u32" => some u32
  | "u64" => some u64
  | "s8" => some s8
  | "s16" => some s16
  | "s32" => some s32
  | "s64" => some s64
  | "f32" | "float32" => some f32
  | "f64" | "float64" => some f64
  | "char" => some char
  | _ => none

theorem ofKeyword?_keyword (s : Scalar) : ofKeyword? s.keyword = some s := by
  cases s <;> rfl

end Scalar

/-- A node that stands for a type defined elsewhere. -/
inductive Reference where
  /-- The type `name`, looked up from the scope `package` outwards. -/
  | named (package : PackageRef) (name : String)
  /-- The type `name` of the interface or world `container`, which is looked up from the scope
  `package` outwards. -/
  | used (package : PackageRef) (container name : String)
deriving DecidableEq, Repr

namespace Reference

/-- The written form. -/
def toText : Reference → String
  | named package name => package.toText ++ "." ++ name
  | used package container name => package.toText ++ "/" ++ container ++ "." ++ name

/-- The kind name of the reference. -/
def kind : Reference → String
  | named .. => "custom"
  | used .. => "alias"

end Reference

/-- A function together with the name it is reached by. -/
structure NamedFunction where
  /-- The name. -/
  name : String
  /-- The function node. -/
  func : TypeId
deriving DecidableEq, Repr, Inhabited

/-- A resource and the functions attached to it. -/
structure ResourceType where
  /-- Identity of the resource. -/
  name : TypeName
  /-- Constructors; each returns the new resource. -/
  constructors : List NamedFunction := []
  /-- Methods; each takes the borrowed resource first. -/
  methods : List NamedFunction := []
  /-- Functions that belong to the resource but take none. -/
  statics : List NamedFunction := []
  /-- The function that gives the owned handle up. -/
  drop : Option TypeId := none
deriving DecidableEq, Repr, Inhabited

/-- Parameter and result types of a function. -/
structure FunctionType where
  /-- Named parameters. -/
  params : List (String × TypeId)
  /-- Results. -/
  results : List TypeId
deriving DecidableEq, Repr, Inhabited

namespace FunctionType

/-- The parameter types without their names. -/
def paramTypes (f : FunctionType) : List TypeId :=
  f.params.map (·.2)

end FunctionType

/-- A node of the type graph. -/
inductive TypeNode where
  | scalar (s : Scalar)
  | string
  | list (element : TypeId)
  | tuple (elements : List TypeId)
  | option (payload : TypeId)
  | result (ok err : Option TypeId)
  | record (name : TypeName) (fields : List (String × TypeId))
  | variant (name : TypeName) (cases : List (String × Option TypeId))
  | enum (name : TypeName) (cases : List String)
  | flags (name : TypeName) (labels : List String)
  | resource (resource : ResourceType)
  | borrow (resource : TypeId)
  | function (type : FunctionType)
  | interface (name : TypeName)
  | world (name : TypeName)
  | stream (element : Option TypeId)
  | future (value : Option TypeId)
  | reference (target : Reference)
deriving DecidableEq, Repr

namespace TypeNode

/-- The kind of a node, as messages and reports name it. -/
def kind : TypeNode → String
  | scalar s => s.keyword
  | string => "string"
  | list _ => "list"
  | tuple _ => "tuple"
  | option _ => "option"
  | result .. => "result"
  | record .. => "record"
  | variant .. => "variant"
  | enum .. => "enum"
  | flags .. => "flags"
  | resource _ => "resource"
  | borrow _ => "borrow"
  | function _ => "function"
  | interface _ => "interface"
  | world _ => "world"
  | stream _ => "stream"
  | future _ => "future"
  | reference target => target.kind

/-- The identity of a named node. -/
def typeName? : TypeNode → Option TypeName
  | record name _ | variant name _ | enum name _ | flags name _ | interface name | world name =>
    some name
  | resource r => some r.name
  | _ => none

/-- The node of a keyword, for the types that are written as one. -/
def ofKeyword? (keyword : String) : Option TypeNode :=
  if keyword = "string" then some string else (Scalar.ofKeyword? keyword).map scalar

/-- The node has to be resolved before its shape is known. -/
def isReference : TypeNode → Bool
  | reference _ => true
  | _ => false

/-- Kind and name of a node. -/
def title (node : TypeNode) : String :=
  match node.typeName? with
  | some name => node.kind ++ " " ++ name.toText
  | none => node.kind

end TypeNode

/-- The nodes of a type graph, in the order of their allocation. -/
structure TypeArena where
  /-- Node `i` has the id `i`. -/
  nodes : Array TypeNode := #[]
deriving Repr, Inhabited

namespace TypeArena

/-- Number of nodes. -/
def size (a : TypeArena) : Nat :=
  a.nodes.size

/-- The node of an id. -/
def get? (a : TypeArena) (id : TypeId) : Option TypeNode :=
  a.nodes[id.index]?

/-- Adds a node and returns its id. -/
def alloc (a : TypeArena) (node : TypeNode) : TypeId × TypeArena :=
  (⟨a.size⟩, ⟨a.nodes.push node⟩)

/-- Puts another node in place of an existing one, which is returned. -/
def replace (a : TypeArena) (id : TypeId) (node : TypeNode) : Option TypeNode × TypeArena :=
  (a.get? id, ⟨a.nodes.setIfInBounds id.index node⟩)

theorem get?_alloc (a : TypeArena) (node : TypeNode) (id : TypeId) :
    (a.alloc node).2.get? id = if id = (a.alloc node).1 then some node else a.get? id := by
  obtain ⟨i⟩ := id
  simp [get?, alloc, size, Array.getElem?_push]

end TypeArena

end ComponentAbi
