import ComponentAbi.AbiError
import ComponentAbi.LoadError

/-!
# Failures of any kind

One type for the failures of operations that load, resolve and compute.
-/

namespace ComponentAbi

/-- A failure of some part of the library. -/
inductive Failure where
  /-- Layout or marshaling. -/
  | abi (cause : AbiError)
  /-- A name does not resolve. -/
  | resolve (cause : ResolveError)
  /-- Documents cannot be loaded. -/
  | load (cause : LoadError)
  /-- The configuration cannot be used. -/
  | config (cause : ConfigError)
  /-- A reference is malformed. -/
  | name (cause : NameError)
deriving DecidableEq, Repr

namespace NameError

/-- What an error is due to, in its own words. -/
def causes : NameError → List String
  | version _ cause => [cause.message]
  | empty | emptySegment _ | missingName _ => []

end NameError

namespace Failure

/-- The wording of the failure. -/
def message : Failure → String
  | abi cause => cause.message
  | resolve cause => cause.message
  | load cause => cause.message
  | config cause => cause.message
  | name cause => cause.message

/-- What a failure is due to, from the outside in. -/
def causes : Failure → List String
  | load (.file _ cause) | config (.file _ cause) => [cause.message]
  | load (.name cause) | name cause => cause.causes
  | _ => []

/-- A failure of layout or marshaling. -/
def isAbi : Failure → Bool
  | abi _ => true
  | _ => false

/-- A name did not resolve, also where that was noticed in layout or marshaling. -/
def isResolve : Failure → Bool
  | resolve _ | abi (.unresolved _) => true
  | _ => false

/-- A failure of loading documents. -/
def isLoad : Failure → Bool
  | load _ => true
  | _ => false

/-- A failure of the configuration. -/
def isConfig : Failure → Bool
  | config _ => true
  | _ => false

end Failure

end ComponentAbi
