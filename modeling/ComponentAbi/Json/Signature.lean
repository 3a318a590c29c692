import ComponentAbi.Json.Basic
import ComponentAbi.Signature

/-!
# Layouts and signatures as JSON

Facts that are absent are written as null.
-/

namespace ComponentAbi

namespace TypeId

/-- A type id as JSON, its index. -/
def toJson (id : TypeId) : Json :=
  .nat id.index

end TypeId

namespace CoreType

/-- A kind of word as JSON, its name. -/
def toJson (t : CoreType) : Json :=
  .string t.name

end CoreType

namespace Layout

/-- The members of a layout. -/
def members (l : Layout) : List (String × Json) :=
  [("size", .nat l.size), ("align", .nat l.align)]

/-- A layout as JSON. -/
def toJson (l : Layout) : Json :=
  .object l.members

end Layout

namespace SumLayout

/-- The placement of a sum as JSON. -/
def toJson (l : SumLayout) : Json :=
  .object [
    ("discriminant_size", .nat l.discriminantSize),
    ("payload_offset", .nat l.payloadOffset),
    ("size", .nat l.size),
    ("align", .nat l.align)]

end SumLayout

namespace Signature

/-- The members of a signature. -/
def members (s : Signature) : List (String × Json) :=
  [("param_types", .listOf TypeId.toJson s.paramTypes),
    ("result_types", .listOf TypeId.toJson s.resultTypes),
    ("flat_params", .listOf CoreType.toJson s.flatParams),
    ("flat_results", .listOf CoreType.toJson s.flatResults),
    ("spill_params", .bool s.spillsParams),
    ("ret_ptr", .bool s.hasReturnPointer),
    ("core_params", .listOf CoreType.toJson s.coreParams),
    ("core_results", .listOf CoreType.toJson s.coreResults),
    ("param_area", .option Layout.toJson s.paramArea),
    ("return_area", .option Layout.toJson s.returnArea),
    ("needs_post_return", .bool s.needsPostReturn),
    ("params_transfer_handles", .bool s.paramsTransferHandles),
    ("results_transfer_handles", .bool s.resultsTransferHandles)]

/-- A signature as JSON. -/
def toJson (s : Signature) : Json :=
  .object s.members

end Signature

end ComponentAbi
