import ComponentAbi.Json.Signature
import ComponentAbi.Project

/-!
# Reports

A report lists functions with their signatures, and every type that is reachable from the signatures
with its layout. A function whose types cannot cross the boundary is listed with the reason; only a
name that does not resolve makes the whole report fail.
-/

namespace ComponentAbi

namespace TypeNode

/-- The types that a report on the node goes on with: those its values are made of, and the resource
of a borrowed handle. -/
def reported : TypeNode → List TypeId
  | borrow id => [id]
  | node => node.components

end TypeNode

/-- How a type is passed and stored. -/
structure TypeReport where
  /-- Kind and name. -/
  description : String
  /-- Size and alignment. -/
  layout : Layout
  /-- The core words. -/
  flat : List CoreType
  /-- Where the fields of a record or tuple start. -/
  fieldOffsets : Option (List Nat) := none
  /-- The placement of an option, result or variant. -/
  sumLayout : Option SumLayout := none
deriving DecidableEq, Repr

namespace TypeReport

/-- The report on a type. -/
def of (abi : Abi) (id : TypeId) : Except AbiError TypeReport := do
  let (_, node) ← abi.lookup id
  let layout ← abi.layout id
  let fieldOffsets ← match node with
    | .record _ fields => some <$> abi.fieldOffsets (fields.map (·.2))
    | .tuple elements => some <$> abi.fieldOffsets elements
    | _ => pure none
  let sumLayout ← match node with
    | .option _ | .result .. | .variant .. => some <$> abi.sumLayout id
    | _ => pure none
  let flat ← abi.flatten id
  return { description := abi.describe id, layout, flat, fieldOffsets, sumLayout }

/-- A report on a type as JSON. -/
def toJson (r : TypeReport) : Json :=
  .object ([("description", .string r.description)]
    ++ r.layout.members
    ++ [("flat", .listOf CoreType.toJson r.flat)]
    ++ Json.optionalMember "field_offsets" (.listOf .nat) r.fieldOffsets
    ++ Json.optionalMember "variant" SumLayout.toJson r.sumLayout)

end TypeReport

namespace WorldFunction

/-- The members that say which function it is. -/
def members (f : WorldFunction) : List (String × Json) :=
  [("direction", .string f.direction.name)]
    ++ Json.optionalMember "module" .string f.module
    ++ [("name", .string f.name)]

end WorldFunction

/-- A function with its signature, or the reason why it has none. -/
structure FunctionReport where
  /-- The function. -/
  function : WorldFunction
  /-- The signature. -/
  signature : Except AbiError Signature
deriving Repr

namespace FunctionReport

/-- A report on a function as JSON. -/
def toJson (r : FunctionReport) : Json :=
  .object (r.function.members ++
    match r.signature with
    | .ok signature => signature.members
    | .error cause => [("error", .string cause.message)])

end FunctionReport

/-- Functions with their signatures, and the types reachable from them. -/
structure Report where
  /-- The functions in order. -/
  functions : List FunctionReport
  /-- The types, in ascending order of their ids. -/
  types : List (TypeId × TypeReport)
deriving Repr

namespace Report

/-- Adds a type to an ordered list of types. -/
def insertType (id : TypeId) (report : TypeReport) :
    List (TypeId × TypeReport) → List (TypeId × TypeReport)
  | [] => [(id, report)]
  | (other, old) :: rest =>
    if id.index < other.index then (id, report) :: (other, old) :: rest
    else (other, old) :: insertType id report rest

/-- Adds the pending types, the first of them first, and everything that is reachable from them and
not yet in the list. -/
def collectWithin (abi : Abi) : Nat → List (TypeId × TypeReport) → List TypeId →
    Except AbiError (List (TypeId × TypeReport))
  | 0, _, _ => .error .unboundedNesting
  | _ + 1, types, [] => .ok types
  | steps + 1, types, next :: pending => do
    let (resolved, node) ← abi.lookup next
    if (types.lookup resolved).isSome then collectWithin abi steps types pending
    else
      let report ← TypeReport.of abi resolved
      collectWithin abi steps (insertType resolved report types) (node.reported.reverse ++ pending)

/-- Adds a type and everything reachable from it. Every step removes a pending type, and at most one
for every part of a node is ever added. -/
def collect (abi : Abi) (types : List (TypeId × TypeReport)) (id : TypeId) :
    Except AbiError (List (TypeId × TypeReport)) :=
  let parts := (abi.arena.nodes.toList.map fun node => node.reported.length).sum
  collectWithin abi (parts + 2) types [id]

/-- Adds a function and the types reachable from its signature. -/
def addFunction (abi : Abi) (r : Report) (function : WorldFunction) : Except Failure Report :=
  match abi.functionSignature function.func with
  | .error (.unresolved cause) => .error (.resolve cause)
  | .error cause =>
    .ok { r with functions := r.functions ++ [{ function, signature := .error cause }] }
  | .ok signature => do
    let ids := signature.paramTypes ++ signature.resultTypes
    let types ← (ids.foldlM (collect abi) r.types).mapError .abi
    return { functions := r.functions ++ [{ function, signature := .ok signature }], types }

/-- The report on some functions. -/
def ofFunctions (abi : Abi) (functions : List WorldFunction) : Except Failure Report :=
  functions.foldlM (addFunction abi) { functions := [], types := [] }

/-- The report on the functions that a world imports and exports. -/
def ofWorld (p : Project) (world : String) : Except Failure Report := do
  ofFunctions p.abi (← p.worldFunctions world)

/-- The report on the functions of all interfaces, as imports. -/
def ofInterfaces (p : Project) : Except Failure Report :=
  ofFunctions p.abi <| p.interfaces.flatMap fun i =>
    p.interfaceFunctions i i.moduleName .imported

/-- A report as JSON. -/
def toJson (r : Report) : Json :=
  .object [
    ("functions", .listOf FunctionReport.toJson r.functions),
    ("types", .object (r.types.map fun (id, t) => (toString id.index, t.toJson)))]

end Report

end ComponentAbi
