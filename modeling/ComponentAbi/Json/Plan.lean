import ComponentAbi.Json.Signature
import ComponentAbi.Plan.Basic

/-!
# Plans as JSON

Every instruction is an object whose member `op` is its name.
-/

namespace ComponentAbi

namespace Local

/-- A temporary as JSON, its name. -/
def toJson (l : Local) : Json :=
  .string l.toText

/-- Temporaries in order. -/
def listToJson (locals : List Local) : Json :=
  .listOf toJson locals

end Local

namespace Instruction

/-- The name of an instruction. -/
def name : Instruction → String
  | arg .. => "arg"
  | const .. => "const"
  | lower .. => "lower"
  | lift .. => "lift"
  | bitcast .. => "bitcast"
  | destructure .. => "destructure"
  | construct .. => "construct"
  | stringLower .. => "string-lower"
  | stringLift .. => "string-lift"
  | listLower .. => "list-lower"
  | listLift .. => "list-lift"
  | variantLower .. => "variant-lower"
  | variantLift .. => "variant-lift"
  | matchCase .. => "match"
  | switch .. => "switch"
  | load .. => "load"
  | store .. => "store"
  | alloc .. => "alloc"
  | free .. => "free"
  | freeString .. => "free-string"
  | freeList .. => "free-list"
  | callCore .. => "call-core"
  | callNative .. => "call-native"
  | finish _ => "return"

mutual

/-- The members of an instruction besides its name. -/
def operands : Instruction → List (String × Json)
  | arg index dst => [("index", .nat index), ("dst", dst.toJson)]
  | const type value dst =>
    [("ty", type.toJson), ("value", .nat value), ("dst", dst.toJson)]
  | lower kind src dst | lift kind src dst =>
    [("kind", .string kind.name), ("src", src.toJson), ("dst", dst.toJson)]
  | bitcast cast src dst =>
    [("cast", .string cast.name), ("src", src.toJson), ("dst", dst.toJson)]
  | destructure type src fields =>
    [("ty", .string type), ("src", src.toJson), ("fields", Local.listToJson fields)]
  | construct type fields dst =>
    [("ty", .string type), ("fields", Local.listToJson fields), ("dst", dst.toJson)]
  | stringLower src ptr len =>
    [("src", src.toJson), ("ptr", ptr.toJson), ("len", len.toJson)]
  | stringLift ptr len dst =>
    [("ptr", ptr.toJson), ("len", len.toJson), ("dst", dst.toJson)]
  | listLower element layout src ptr len item addr body =>
    [("element", .string element), ("layout", layout.toJson), ("src", src.toJson),
      ("ptr", ptr.toJson), ("len", len.toJson), ("item", item.toJson), ("addr", addr.toJson),
      ("body", .array (blockToJson body))]
  | listLift element layout ptr len addr body item dst =>
    [("element", .string element), ("layout", layout.toJson), ("ptr", ptr.toJson),
      ("len", len.toJson), ("addr", addr.toJson), ("body", .array (blockToJson body)),
      ("item", item.toJson), ("dst", dst.toJson)]
  | variantLower type src results arms =>
    [("ty", .string type), ("src", src.toJson), ("results", Local.listToJson results),
      ("arms", .array (armsToJson arms))]
  | variantLift type discriminant arms dst =>
    [("ty", .string type), ("discriminant", discriminant.toJson),
      ("arms", .array (armsToJson arms)), ("dst", dst.toJson)]
  | matchCase type src arms =>
    [("ty", .string type), ("src", src.toJson), ("arms", .array (armsToJson arms))]
  | switch discriminant arms =>
    [("discriminant", discriminant.toJson), ("arms", .array (armsToJson arms))]
  | load width base offset dst =>
    [("width", .string width.name), ("base", base.toJson), ("offset", .nat offset),
      ("dst", dst.toJson)]
  | store width src base offset =>
    [("width", .string width.name), ("src", src.toJson), ("base", base.toJson),
      ("offset", .nat offset)]
  | alloc size align dst => [("size", .nat size), ("align", .nat align), ("dst", dst.toJson)]
  | free ptr size align => [("ptr", ptr.toJson), ("size", .nat size), ("align", .nat align)]
  | freeString ptr len => [("ptr", ptr.toJson), ("len", len.toJson)]
  | freeList element layout ptr len addr body =>
    [("element", .string element), ("layout", layout.toJson), ("ptr", ptr.toJson),
      ("len", len.toJson), ("addr", addr.toJson), ("body", .array (blockToJson body))]
  | callCore module name args results =>
    Json.optionalMember "module" .string module
      ++ [("name", .string name), ("args", Local.listToJson args),
        ("results", Local.listToJson results)]
  | callNative name args results =>
    [("name", .string name), ("args", Local.listToJson args),
      ("results", Local.listToJson results)]
  | finish values => [("values", Local.listToJson values)]
termination_by structural i => i

/-- The instructions of a block as JSON. -/
def blockToJson : List Instruction → List Json
  | [] => []
  | i :: rest => .object (("op", .string i.name) :: i.operands) :: blockToJson rest
termination_by structural body => body

/-- Some arms as JSON. An arm without payload or yields does not mention them. -/
def armsToJson : List (ArmOf Instruction) → List Json
  | [] => []
  | ⟨index, label, payload, body, yields⟩ :: rest =>
    .object ([("case", .nat index), ("name", .string label)]
      ++ Json.optionalMember "payload" Local.toJson payload
      ++ [("body", .array (blockToJson body))]
      ++ if yields.isEmpty then [] else [("yields", Local.listToJson yields)])
    :: armsToJson rest
termination_by structural arms => arms

end

/-- An instruction as JSON. -/
def toJson (i : Instruction) : Json :=
  .object (("op", .string i.name) :: i.operands)

end Instruction

namespace PostReturnPlan

/-- A later cleanup as JSON. -/
def toJson (p : PostReturnPlan) : Json :=
  .object [
    ("name", .string p.name),
    ("params", Local.listToJson p.params),
    ("body", .array (Instruction.blockToJson p.body))]

end PostReturnPlan

namespace FunctionPlan

/-- A plan as JSON. -/
def toJson (p : FunctionPlan) : Json :=
  .object ([("name", .string p.name)]
    ++ Json.optionalMember "module" .string p.module
    ++ [("direction", .string p.direction.name),
      ("abi", p.signature.toJson),
      ("params", Local.listToJson p.params),
      ("body", .array (Instruction.blockToJson p.body))]
    ++ Json.optionalMember "post_return" PostReturnPlan.toJson p.postReturn)

end FunctionPlan

end ComponentAbi
