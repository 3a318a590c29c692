import ComponentAbi.Numerals
import ComponentAbi.Shape.Basic

/-!
# Searching a type for what it owns

Whether values of a type own memory or owned handles is a search of the type graph, through lists as
well. A node is looked into once, so the search also ends on types that contain themselves.
-/

namespace ComponentAbi

namespace TypeNode

/-- The types that values of the node are made of. A borrowed handle has nothing of its resource. -/
def components : TypeNode → List TypeId
  | list element => [element]
  | tuple elements => elements
  | option payload => [payload]
  | result ok err => ok.toList ++ err.toList
  | record _ fields => fields.map (·.2)
  | variant _ cases => cases.filterMap (·.2)
  | _ => []

/-- Nodes of this kind have no values. -/
def isValueless : TypeNode → Bool
  | function _ | interface _ | world _ | stream _ | future _ => true
  | _ => false

end TypeNode

namespace TypeArena

/-- Number of components of all nodes together. -/
def componentCount (a : TypeArena) : Nat :=
  (a.nodes.toList.map fun node => node.components.length).sum

end TypeArena

namespace Abi

/-- Looks for a node that satisfies `p`, starting with the first pending type. The components of a
node are looked into before the types that were pending already, the last of them first. -/
def searchWithin (abi : Abi) (p : TypeNode → Bool) :
    Nat → List TypeId → List TypeId → Except AbiError Bool
  | 0, _, _ => .error .unboundedNesting
  | _ + 1, _, [] => .ok false
  | steps + 1, visited, next :: pending => do
    let (resolved, node) ← abi.lookup next
    if resolved ∈ visited then searchWithin abi p steps visited pending
    else if p node then return true
    else if node.isValueless then throw (Shape.unsupportedError node.title)
    else searchWithin abi p steps (resolved :: visited) (node.components.reverse ++ pending)

/-- A node that satisfies `p` occurs in the structure of the type. Every step removes a pending
type, and at most one for every component in the graph is ever added. -/
def containsNode (abi : Abi) (p : TypeNode → Bool) (id : TypeId) : Except AbiError Bool :=
  abi.searchWithin p (abi.arena.componentCount + 2) [] [id]

/-- A lowered value of the type may own memory. -/
def needsDeallocate (abi : Abi) (id : TypeId) : Except AbiError Bool :=
  abi.containsNode (fun | .string | .list _ => true | _ => false) id

/-- A value of the type may carry an owned handle. -/
def ownsHandles (abi : Abi) (id : TypeId) : Except AbiError Bool :=
  abi.containsNode (fun | .resource _ => true | _ => false) id

end Abi

end ComponentAbi
