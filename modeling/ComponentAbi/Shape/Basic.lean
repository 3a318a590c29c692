import ComponentAbi.Abi

/-!
# Shapes

A shape is a type unfolded into a tree: references are resolved, and only the element type of a list
is left as an id. Types that contain themselves through lists alone therefore have finite shapes.
What has no shape becomes a leaf that keeps the reason, so that an error shows up exactly where the
type is looked at.

Records and tuples are products, and options, results and variants are sums; they differ only in how
their values are written.
-/

namespace ComponentAbi

/-- A type whose values are single words in memory and out of it. -/
inductive Leaf where
  /-- A scalar type. -/
  | scalar (s : Scalar)
  /-- One of some named cases, as its index. -/
  | enum (cases : List String)
  /-- A subset of some labels, one bit for each. -/
  | flags (name : String) (labels : List String)
  /-- An owned handle. -/
  | own
  /-- A borrowed handle. -/
  | borrow
deriving DecidableEq, Repr

namespace Leaf

/-- The kind name of a leaf type. -/
def kind : Leaf → String
  | scalar s => s.keyword
  | enum _ => "enum"
  | flags .. => "flags"
  | own => "resource"
  | borrow => "borrow"

end Leaf

/-- How the values of a product are written. -/
inductive ProductKind where
  | record (name : TypeName)
  | tuple
deriving DecidableEq, Repr

namespace ProductKind

/-- The kind name of a product. -/
def name : ProductKind → String
  | record _ => "record"
  | tuple => "tuple"

/-- Kind and name of a product. -/
def title : ProductKind → String
  | record name => "record " ++ name.toText
  | tuple => "tuple"

end ProductKind

/-- How the values of a sum are written. -/
inductive SumKind where
  | option
  | result
  | variant (name : TypeName)
deriving DecidableEq, Repr

namespace SumKind

/-- The kind name of a sum. -/
def name : SumKind → String
  | option => "option"
  | result => "result"
  | variant _ => "variant"

/-- Kind and name of a sum. -/
def title : SumKind → String
  | option => "option"
  | result => "result"
  | variant name => "variant " ++ name.toText

/-- Size of the stored case index: options have only two cases and take one byte. -/
def discriminantSize : SumKind → Nat
  | option => 1
  | result | variant _ => 4

end SumKind

/-- A type unfolded up to the elements of lists. -/
inductive Shape where
  /-- A single word. -/
  | leaf (leaf : Leaf)
  /-- Text, as an address and a length. -/
  | string
  /-- Values of one type in a row, as an address and a length. -/
  | list (element : TypeId)
  /-- One value of every field. The fields of a tuple have empty labels. -/
  | product (kind : ProductKind) (fields : List (String × Shape))
  /-- A case index and the payload of that case, if it has one. -/
  | sum (kind : SumKind) (cases : List (String × Option Shape))
  /-- A node of a kind that has no values. -/
  | unsupported (kind title : String)
  /-- A type that could not be looked up. -/
  | unresolved (cause : AbiError)
deriving Repr

namespace Shape

/-- The kind name of a shape. -/
def kind : Shape → String
  | leaf l => l.kind
  | string => "string"
  | list _ => "list"
  | product kind _ => kind.name
  | sum kind _ => kind.name
  | unsupported kind _ => kind
  | unresolved _ => "unresolved"

/-- The error for a node that has no values. -/
def unsupportedError (title : String) : AbiError :=
  .unsupportedType (title ++ " cannot be passed as a value")

/-- The shape of a node, from the shapes of the types it is made of. -/
def ofNode (inner : TypeId → Shape) : TypeNode → Shape
  | .scalar s => leaf (.scalar s)
  | .string => string
  | .list element => list element
  | .tuple elements => product .tuple (elements.map fun e => ("", inner e))
  | .option payload => sum .option [("none", none), ("some", some (inner payload))]
  | .result ok err => sum .result [("ok", ok.map inner), ("error", err.map inner)]
  | .record name fields => product (.record name) (fields.map fun (label, f) => (label, inner f))
  | .variant name cases => sum (.variant name) (cases.map fun (label, c) => (label, c.map inner))
  | .enum _ cases => leaf (.enum cases)
  | .flags name labels => leaf (.flags name.toText labels)
  | .resource _ => leaf .own
  | .borrow _ => leaf .borrow
  | node@(.function _) | node@(.interface _) | node@(.world _) | node@(.stream _)
  | node@(.future _) | node@(.reference _) => unsupported node.kind node.title

end Shape

namespace Abi

/-- Unfolds a type to at most the given depth. `path` are the types it is being unfolded in, so a
type that comes up again inside itself has no shape. -/
def unfold (abi : Abi) : Nat → List TypeId → TypeId → Shape
  | 0, _, _ => .unresolved .unboundedNesting
  | depth + 1, path, id =>
    match abi.lookup id with
    | .error cause => .unresolved cause
    | .ok (resolved, node) =>
      if resolved ∈ path then .unresolved .unboundedNesting
      else Shape.ofNode (abi.unfold depth (resolved :: path)) node

/-- The shape of a type. A path without repetition is no longer than the arena. -/
def shape (abi : Abi) (id : TypeId) : Shape :=
  abi.unfold (abi.arena.size + 1) [] id

end Abi

end ComponentAbi
