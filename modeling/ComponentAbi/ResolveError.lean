import ComponentAbi.TypeGraph

/-!
# Failures of name resolution
-/

namespace ComponentAbi

/-- Why a name does not lead to a definition. -/
inductive ResolveError where
  /-- No contents are known for the package reference. -/
  | unknownPackage (package : String)
  /-- The type `name` is not in any place that was searched from `package`. -/
  | unresolvedType (name package : String) (attempts : List String)
  /-- The interface or world `name` is not in any place that was searched from `package`. -/
  | unresolvedContainer (name package : String) (attempts : List String)
  /-- Following references from a node came back to the reference given. -/
  | aliasCycle (reference : String)
  /-- The arena has no such node. -/
  | unknownTypeId (id : TypeId)
  /-- No world has this reference. -/
  | unknownWorld (reference : String)
  /-- The includes of a world lead back to it. -/
  | includeCycle (reference : String)
deriving DecidableEq, Repr

namespace ResolveError

/-- The wording of the error. -/
def message : ResolveError → String
  | unknownPackage package => "Unknown package '" ++ package ++ "'"
  | unresolvedType name package attempts =>
    "Unresolved type '" ++ name ++ "' referenced from '" ++ package ++ "' (tried: "
      ++ String.intercalate "; " attempts ++ ")"
  | unresolvedContainer name package attempts =>
    "Unresolved interface or world '" ++ name ++ "' referenced from '" ++ package ++ "' (tried: "
      ++ String.intercalate "; " attempts ++ ")"
  | aliasCycle reference => "Cyclic alias chain through '" ++ reference ++ "'"
  | unknownTypeId id => "Unknown type id " ++ id.toText
  | unknownWorld reference => "Unknown world '" ++ reference ++ "'"
  | includeCycle reference => "World '" ++ reference ++ "' includes itself"

/-- The name that did not resolve, where the error is about one name. -/
def symbol? : ResolveError → Option String
  | unresolvedType name .. | unresolvedContainer name .. => some name
  | unknownPackage name | unknownWorld name => some name
  | aliasCycle _ | unknownTypeId _ | includeCycle _ => none

end ResolveError

end ComponentAbi
