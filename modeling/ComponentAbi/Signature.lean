import ComponentAbi.Shape.Layout
import ComponentAbi.TypeSearch

/-!
# Function signatures at the boundary

Parameters that flatten to more than `maxFlatParams` words are passed through one pointer to an area
in memory, and results that are more than one or flatten to more than `maxFlatResults` words are
written to an area that the caller provides.
-/

namespace ComponentAbi

/-- The number of words that parameters may take before they are passed in memory. -/
def maxFlatParams : Nat := 16

/-- The number of words that results may take before they are passed in memory. -/
def maxFlatResults : Nat := 1

/-- How a function crosses the boundary. -/
structure Signature where
  /-- Parameter types. -/
  paramTypes : List TypeId
  /-- Result types. -/
  resultTypes : List TypeId
  /-- Words of the parameters, before it is decided whether they go through memory. -/
  flatParams : List CoreType
  /-- Words of the results, before it is decided whether they go through memory. -/
  flatResults : List CoreType
  /-- Parameters of the core function. -/
  coreParams : List CoreType
  /-- Results of the core function. -/
  coreResults : List CoreType
  /-- The area of parameters that are passed in memory. -/
  paramArea : Option Layout
  /-- The area of results that are passed in memory. -/
  returnArea : Option Layout
  /-- The results may own memory, which the caller frees when it is done with them. -/
  needsPostReturn : Bool
  /-- Owned handles may move from caller to callee. -/
  paramsTransferHandles : Bool
  /-- Owned handles may move from callee to caller. -/
  resultsTransferHandles : Bool
deriving DecidableEq, Repr

namespace Signature

/-- Parameters are passed through a pointer. -/
def spillsParams (s : Signature) : Bool :=
  s.paramArea.isSome

/-- Results are written to an area of the caller. -/
def hasReturnPointer (s : Signature) : Bool :=
  s.returnArea.isSome

end Signature

namespace Abi

/-- What a search finds out about any of some types. All of them are searched. -/
def anyType (search : TypeId → Except AbiError Bool) (ids : List TypeId) : Except AbiError Bool :=
  (ids.mapM search).map (·.any id)

/-- The signature of a function type. -/
def signature (abi : Abi) (f : FunctionType) : Except AbiError Signature := do
  let flatParams ← abi.flattenAll f.paramTypes
  let flatResults ← abi.flattenAll f.results
  let spills := flatParams.length > maxFlatParams
  let returns := f.results.length > 1 || flatResults.length > maxFlatResults
  let paramArea ← if spills then some <$> abi.sequenceLayout f.paramTypes else pure none
  let returnArea ← if returns then some <$> abi.sequenceLayout f.results else pure none
  let resultFacts ← f.results.mapM fun id => do
    let deallocates ← abi.needsDeallocate id
    let owns ← abi.ownsHandles id
    return (deallocates, owns)
  let paramsTransferHandles ← anyType abi.ownsHandles f.paramTypes
  return {
    paramTypes := f.paramTypes
    resultTypes := f.results
    flatParams
    flatResults
    coreParams := (if spills then [.i32] else flatParams) ++ (if returns then [.i32] else [])
    coreResults := if returns then [] else flatResults
    paramArea
    returnArea
    needsPostReturn := resultFacts.any (·.1)
    paramsTransferHandles
    resultsTransferHandles := resultFacts.any (·.2) }

/-- The signature of a function node. -/
def functionSignature (abi : Abi) (id : TypeId) : Except AbiError Signature := do
  match (← abi.lookup id).2 with
  | .function f => abi.signature f
  | other => throw (.typeMismatch "function" other.kind)

end Abi

end ComponentAbi
