import ComponentAbi.Shape.Basic
import ComponentAbi.Value

/-!
# Owned handles in a value

The handles that a value gives away when it crosses the boundary, from left to right. Borrowed
handles never move. Parts of a value that do not fit their type are passed over.
-/

namespace ComponentAbi

namespace Abi

/-- The owned handles of a value that is nested less than `depth` deep. -/
def ownedHandlesWithin (abi : Abi) : Nat → TypeId → Value → Except AbiError (List UInt32)
  | 0, _, _ => .error .unboundedNesting
  | depth + 1, id, v => do
    let inner := abi.ownedHandlesWithin depth
    let both : Option TypeId → Option Value → Except AbiError (List UInt32)
      | some id, some v => inner id v
      | _, _ => .ok []
    match (← abi.lookup id).2, v with
    | .resource _, .own handle => return [handle]
    | .list element, .list items => return (← items.mapM (inner element)).flatten
    | .tuple elements, .tuple items =>
      return (← (elements.zip items).mapM fun (id, v) => inner id v).flatten
    | .record _ fields, .record given =>
      return (← fields.mapM fun (label, id) => both (some id) (given.lookup label)).flatten
    | .option id, .option payload => both (some id) payload
    | .result ok _, .ok payload => both ok payload
    | .result _ err, .err payload => both err payload
    | .variant _ cases, .variant label payload => both (cases.lookup label).join payload
    | _, _ => return []

/-- The owned handles of a value of a type, in the order in which they are passed. -/
def ownedHandles (abi : Abi) (id : TypeId) (v : Value) : Except AbiError (List UInt32) :=
  abi.ownedHandlesWithin (v.depth + 1) id v

/-- The owned handles of values of the given types. -/
def ownedHandlesOfAll (abi : Abi) (ids : List TypeId) (values : List Value) :
    Except AbiError (List UInt32) := do
  return (← (ids.zip values).mapM fun (id, v) => abi.ownedHandles id v).flatten

end Abi

end ComponentAbi
