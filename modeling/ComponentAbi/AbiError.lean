import ComponentAbi.ResolveError

/-!
# Failures of layout and marshaling
-/

namespace ComponentAbi

/-- Why a type has no boundary form, or a value does not cross the boundary. -/
inductive AbiError where
  /-- The bytes of a string are not UTF-8. -/
  | invalidUtf8
  /-- No case has this index. -/
  | invalidDiscriminant (discriminant cases : Nat)
  /-- No character has this code. -/
  | invalidChar (code : Nat)
  /-- Something other than what the type asks for. -/
  | typeMismatch (expected got : String)
  /-- Nodes of this kind are not value types. -/
  | unsupportedType (what : String)
  /-- The labels of a flags type do not fit one word. -/
  | tooManyFlags (name : String) (count max : Nat)
  /-- The arena has no such node. -/
  | unknownType (id : TypeId)
  /-- A reference was met where nothing resolves references. -/
  | missingResolver (reference : String)
  /-- A reference did not resolve. -/
  | unresolved (cause : ResolveError)
  /-- Too few or too many words for a type. -/
  | flatArityMismatch (expected got : Nat)
  /-- An address range that is not inside the memory. -/
  | invalidMemoryPointer (pointer length memorySize : Nat)
  /-- A block that was never handed out. -/
  | unknownAllocation (pointer : Nat)
  /-- A block that was freed before. -/
  | doubleFree (pointer : Nat)
  /-- A block handed out with another size or alignment. -/
  | allocationMismatch (pointer size align expectedSize expectedAlign : Nat)
  /-- The handle names no live resource. -/
  | handleNotFound (handle : Nat)
  /-- The type contains itself without a list in between, or the memory holds a list inside
  itself, so that following it would never end. -/
  | unboundedNesting
deriving DecidableEq, Repr

namespace AbiError

/-- The wording of the error. -/
def message : AbiError → String
  | invalidUtf8 => "Invalid UTF-8 in string"
  | invalidDiscriminant discriminant cases =>
    "Invalid discriminant " ++ toString discriminant ++ " for variant with " ++ toString cases
      ++ " cases"
  | invalidChar code => "Invalid char value: " ++ toString code
  | typeMismatch expected got => "Type mismatch: expected " ++ expected ++ ", got " ++ got
  | unsupportedType what => "Unsupported type shape: " ++ what
  | tooManyFlags name count max =>
    "Flags type '" ++ name ++ "' has " ++ toString count ++ " flags, at most " ++ toString max
      ++ " are supported"
  | unknownType id => "Unknown type id " ++ id.toText
  | missingResolver reference => "Type reference '" ++ reference ++ "' needs a resolver"
  | unresolved cause => cause.message
  | flatArityMismatch expected got =>
    "Expected " ++ toString expected ++ " flat values, got " ++ toString got
  | invalidMemoryPointer pointer length memorySize =>
    "Invalid memory pointer: " ++ toString pointer ++ " with length " ++ toString length
      ++ " exceeds memory size " ++ toString memorySize
  | unknownAllocation pointer => "Free of unknown allocation at " ++ toString pointer
  | doubleFree pointer => "Double free of allocation at " ++ toString pointer
  | allocationMismatch pointer size align expectedSize expectedAlign =>
    "Free of allocation at " ++ toString pointer ++ " with size " ++ toString size ++ " and align "
      ++ toString align ++ ", allocated with size " ++ toString expectedSize ++ " and align "
      ++ toString expectedAlign
  | handleNotFound handle => "Unknown resource handle " ++ toString handle
  | unboundedNesting => "Unbounded nesting"

end AbiError

end ComponentAbi
