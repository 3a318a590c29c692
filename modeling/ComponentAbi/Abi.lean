import ComponentAbi.AbiError
import ComponentAbi.Resolver

/-!
# Types with what their references resolve in

A type graph together with the packages in which its reference nodes are looked up. A graph without
packages stands alone: meeting a reference is then an error.
-/

namespace ComponentAbi

/-- A type graph and the packages its references are looked up in. -/
structure Abi where
  /-- The type nodes. -/
  arena : TypeArena
  /-- The packages, if references can be resolved. -/
  store? : Option PackageStore := none
deriving Repr

namespace Abi

/-- The node with a shape of its own that `id` stands for. -/
def lookup (abi : Abi) (id : TypeId) : Except AbiError (TypeId × TypeNode) :=
  match abi.arena.get? id with
  | none => .error (.unknownType id)
  | some (.reference target) =>
    match abi.store? with
    | none => .error (.missingResolver target.toText)
    | some store => do
      let resolved ← (store.resolve abi.arena id).mapError .unresolved
      match abi.arena.get? resolved with
      | some node => return (resolved, node)
      | none => throw (.unresolved (.unknownTypeId resolved))
  | some node => .ok (id, node)

/-- Kind and name of the type, for messages and reports. -/
def describe (abi : Abi) (id : TypeId) : String :=
  match abi.lookup id with
  | .ok (_, node) => node.title
  | .error _ => "unresolved " ++ id.toText

end Abi

end ComponentAbi
