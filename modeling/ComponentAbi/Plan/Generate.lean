import ComponentAbi.Plan.Basic

/-!
# Generating plans

The plan of a function is generated from the shapes of its types. All temporaries of a plan, those
in nested blocks included, are handed out in one sequence, which can go on through several plans
(`Abi.planWith`). The sequence has no end, but the numbers that temporaries are named by have 32
bits (`Local.number`).
-/

namespace ComponentAbi

/-- Generation of a plan. The state is the number of temporaries handed out so far, which a failure
keeps. -/
abbrev PlanM := ExceptT AbiError (StateM Nat)

namespace PlanM

/-- A new temporary, the next of the sequence. -/
def fresh : PlanM Local :=
  modifyGet fun n => (⟨n⟩, n + 1)

/-- Some new temporaries, in order. -/
def freshList (count : Nat) : PlanM (List Local) :=
  (List.range count).mapM fun _ => fresh

/-- A new temporary for a payload, if there is one. -/
def freshFor {α : Type} : Option α → PlanM (Option Local)
  | none => return none
  | some _ => return some (← fresh)

/-- The next of some words. -/
def next : List Local → PlanM (Local × List Local)
  | [] => throw (.flatArityMismatch 1 0)
  | w :: rest => return (w, rest)

/-- The next `count` of some words. -/
def take (words : List Local) (count : Nat) : PlanM (List Local × List Local) := do
  if words.length < count then throw (.flatArityMismatch count words.length)
  return (words.take count, words.drop count)

end PlanM

namespace Plan

open PlanM

/-! ### Words in shared slots -/

/-- Moves a word of kind `kind` into a slot of kind `slot`, or with `back` out of it. -/
def cast (word : Local) (kind slot : CoreType) (back : Bool) :
    PlanM (List Instruction × Local) := do
  match Bitcast.between kind slot with
  | none => throw (.typeMismatch slot.name kind.name)
  | some there =>
    let c := if back then there.inverse else there
    if c = .none then return ([], word)
    let dst ← fresh
    return ([.bitcast c word dst], dst)

/-- Moves payload words into the slots that all cases share. Slots that are left are zero. -/
def fillSlots : List CoreType → List (Local × CoreType) → PlanM (List Instruction × List Local)
  | [], _ => return ([], [])
  | slot :: slots, [] => do
    let dst ← fresh
    let (more, filled) ← fillSlots slots []
    return (.const slot 0 dst :: more, dst :: filled)
  | slot :: slots, (word, kind) :: words => do
    let (first, dst) ← cast word kind slot false
    let (more, filled) ← fillSlots slots words
    return (first ++ more, dst :: filled)

/-- Moves the payload words of one case out of the slots that all cases share. -/
def drainSlots : List CoreType → List Local → List CoreType →
    PlanM (List Instruction × List Local)
  | kind :: kinds, word :: words, slot :: slots => do
    let (first, dst) ← cast word kind slot true
    let (more, drained) ← drainSlots kinds words slots
    return (first ++ more, dst :: drained)
  | _, _, _ => return ([], [])

/-! ### Memory accesses -/

/-- The memory access of a stored case index. -/
def discriminantWidth (size : Nat) : MemoryWidth :=
  if size = 1 then .u8 else .i32

/-- Loads one word. -/
def loadWord (width : MemoryWidth) (base : Local) (offset : Nat) :
    PlanM (List Instruction × Local) := do
  let dst ← fresh
  return ([.load width base offset dst], dst)

/-- Loads an address and a length. -/
def loadPair (base : Local) (offset : Nat) : PlanM (List Instruction × Local × Local) := do
  let ptr ← fresh
  let len ← fresh
  return ([.load .i32 base offset ptr, .load .i32 base (offset + 4) len], ptr, len)

/-- Stores an address and a length. -/
def storePair (ptr len base : Local) (offset : Nat) : List Instruction :=
  [.store .i32 ptr base offset, .store .i32 len base (offset + 4)]

/-- Hands out a block. -/
def allocate (area : Layout) : PlanM (List Instruction × Local) := do
  let dst ← fresh
  return ([.alloc area.size area.align dst], dst)

/-! ### Lists, from what is done with their items -/

variable (abi : Abi)

/-- Lowers a list, with `store` for its items. -/
def lowerList (store : Shape → Local → Local → Nat → PlanM (List Instruction))
    (element : TypeId) (src : Local) : PlanM (List Instruction × Local × Local) := do
  let shape := abi.shape element
  let layout ← liftM shape.layout
  let ptr ← fresh
  let len ← fresh
  let item ← fresh
  let addr ← fresh
  let body ← store shape item addr 0
  return ([.listLower (abi.describe element) layout src ptr len item addr body], ptr, len)

/-- Lifts a list, with `load` for its items. -/
def liftList (load : Shape → Local → Nat → PlanM (List Instruction × Local))
    (element : TypeId) (ptr len : Local) : PlanM (List Instruction × Local) := do
  let shape := abi.shape element
  let layout ← liftM shape.layout
  let addr ← fresh
  let (body, item) ← load shape addr 0
  let dst ← fresh
  return ([.listLift (abi.describe element) layout ptr len addr body item dst], dst)

/-- Frees a list, with `free` for its items. -/
def freeList (free : Shape → Local → Nat → PlanM (List Instruction))
    (element : TypeId) (ptr len : Local) : PlanM (List Instruction) := do
  let shape := abi.shape element
  let layout ← liftM shape.layout
  let addr ← fresh
  let body ← free shape addr 0
  return [.freeList (abi.describe element) layout ptr len addr body]

/-! ### Values in memory -/

/-- Stores a native value of a type that is nested less than `depth` deep. -/
def store : Nat → Shape → Local → Local → Nat → PlanM (List Instruction)
  | 0, _, _, _, _ => throw .unboundedNesting
  | depth + 1, shape, src, base, offset =>
    match shape with
    | .leaf l => do
      liftM l.check
      let word ← fresh
      return [.lower l.wordKind src word, .store l.wordKind.width word base offset]
    | .string => do
      let ptr ← fresh
      let len ← fresh
      return .stringLower src ptr len :: storePair ptr len base offset
    | .list element => do
      let (code, ptr, len) ← lowerList abi (store depth) element src
      return code ++ storePair ptr len base offset
    | .product kind fields => do
      let offsets ← liftM (Shape.fieldOffsets fields)
      let locals ← freshList fields.length
      let code ← ((fields.zip locals).zip offsets).mapM fun (((_, field), part), o) =>
        store depth field part base (offset + o)
      return .destructure kind.title src locals :: code.flatten
    | .sum kind cases => do
      let layout ← liftM (Shape.sumLayout kind cases)
      let arms ← cases.zipIdx.mapM fun ((label, case), index) => do
        let payload ← freshFor case
        let discriminant ← fresh
        let code ← match case, payload with
          | some shape, some part => store depth shape part base (offset + layout.payloadOffset)
          | _, _ => pure []
        let body := Instruction.const .i32 index discriminant
          :: .store (discriminantWidth layout.discriminantSize) discriminant base offset :: code
        return { index, label, payload, body }
      return [.matchCase kind.title src arms]
    | .unsupported _ title => throw (Shape.unsupportedError title)
    | .unresolved cause => throw cause

/-- Loads a native value of a type that is nested less than `depth` deep. -/
def load : Nat → Shape → Local → Nat → PlanM (List Instruction × Local)
  | 0, _, _, _ => throw .unboundedNesting
  | depth + 1, shape, base, offset =>
    match shape with
    | .leaf l => do
      liftM l.check
      let (code, word) ← loadWord l.wordKind.width base offset
      let dst ← fresh
      return (code ++ [.lift l.wordKind word dst], dst)
    | .string => do
      let (code, ptr, len) ← loadPair base offset
      let dst ← fresh
      return (code ++ [.stringLift ptr len dst], dst)
    | .list element => do
      let (code, ptr, len) ← loadPair base offset
      let (more, dst) ← liftList abi (load depth) element ptr len
      return (code ++ more, dst)
    | .product kind fields => do
      let offsets ← liftM (Shape.fieldOffsets fields)
      let parts ← (fields.zip offsets).mapM fun ((_, field), o) =>
        load depth field base (offset + o)
      let dst ← fresh
      return ((parts.map (·.1)).flatten ++ [.construct kind.title (parts.map (·.2)) dst], dst)
    | .sum kind cases => do
      let layout ← liftM (Shape.sumLayout kind cases)
      let (code, discriminant) ←
        loadWord (discriminantWidth layout.discriminantSize) base offset
      let arms ← cases.zipIdx.mapM fun ((label, case), index) => do
        match case with
        | none => return { index, label, body := [] }
        | some shape => do
          let (body, part) ← load depth shape base (offset + layout.payloadOffset)
          return { index, label, body, yields := [part] }
      let dst ← fresh
      return (code ++ [.variantLift kind.title discriminant arms dst], dst)
    | .unsupported _ title => throw (Shape.unsupportedError title)
    | .unresolved cause => throw cause

/-- Frees what a stored value of a type owns that is nested less than `depth` deep. -/
def freeStored : Nat → Shape → Local → Nat → PlanM (List Instruction)
  | 0, _, _, _ => throw .unboundedNesting
  | depth + 1, shape, base, offset =>
    match shape with
    | .leaf _ => return []
    | .string => do
      let (code, ptr, len) ← loadPair base offset
      return code ++ [.freeString ptr len]
    | .list element => do
      let (code, ptr, len) ← loadPair base offset
      return code ++ (← freeList abi (freeStored depth) element ptr len)
    | .product _ fields => do
      if !Shape.fieldsOwnMemory fields then return []
      let offsets ← liftM (Shape.fieldOffsets fields)
      let code ← (fields.zip offsets).mapM fun ((_, field), o) =>
        freeStored depth field base (offset + o)
      return code.flatten
    | .sum kind cases => do
      if !Shape.casesOwnMemory cases then return []
      let layout ← liftM (Shape.sumLayout kind cases)
      let (code, discriminant) ←
        loadWord (discriminantWidth layout.discriminantSize) base offset
      let arms ← cases.zipIdx.filterMapM fun ((label, case), index) => do
        match case with
        | none => return none
        | some shape => do
          if !shape.ownsMemory then return none
          let body ← freeStored depth shape base (offset + layout.payloadOffset)
          return some { index, label, body }
      return code ++ [.switch discriminant arms]
    | .unsupported _ title => throw (Shape.unsupportedError title)
    | .unresolved cause => throw cause

/-! ### Values in words -/

/-- Lowers a native value of a type that is nested less than `depth` deep into words. -/
def lower : Nat → Shape → Local → PlanM (List Instruction × List Local)
  | 0, _, _ => throw .unboundedNesting
  | depth + 1, shape, src =>
    match shape with
    | .leaf l => do
      liftM l.check
      let dst ← fresh
      return ([.lower l.wordKind src dst], [dst])
    | .string => do
      let ptr ← fresh
      let len ← fresh
      return ([.stringLower src ptr len], [ptr, len])
    | .list element => do
      let (code, ptr, len) ← lowerList abi (store abi depth) element src
      return (code, [ptr, len])
    | .product kind fields => do
      let locals ← freshList fields.length
      let parts ← (fields.zip locals).mapM fun ((_, field), part) => lower depth field part
      return (.destructure kind.title src locals :: (parts.map (·.1)).flatten,
        (parts.map (·.2)).flatten)
    | .sum kind cases => do
      let slots ← liftM (Shape.flattenCases cases)
      let results ← freshList (slots.length + 1)
      let arms ← cases.zipIdx.mapM fun ((label, case), index) => do
        let payload ← freshFor case
        let discriminant ← fresh
        let (code, words) ← match case, payload with
          | some shape, some part => do
            let (code, words) ← lower depth shape part
            let kinds ← liftM shape.flatten
            pure (code, words.zip kinds)
          | _, _ => pure ([], [])
        let (fill, filled) ← fillSlots slots words
        let body := Instruction.const .i32 index discriminant :: code ++ fill
        return { index, label, payload, body, yields := discriminant :: filled }
      return ([.variantLower kind.title src results arms], results)
    | .unsupported _ title => throw (Shape.unsupportedError title)
    | .unresolved cause => throw cause

/-- Lifts the fields of a product from words, with `lift` for each of them. -/
def liftFields (lift : Shape → List Local → PlanM (List Instruction × Local × List Local)) :
    List (String × Shape) → List Local → PlanM (List Instruction × List Local × List Local)
  | [], words => return ([], [], words)
  | (_, field) :: rest, words => do
    let (first, part, words) ← lift field words
    let (more, parts, words) ← liftFields lift rest words
    return (first ++ more, part :: parts, words)

/-- Lifts a native value of a type that is nested less than `depth` deep from the first of some
words, and answers the words that are left. -/
def lift : Nat → Shape → List Local → PlanM (List Instruction × Local × List Local)
  | 0, _, _ => throw .unboundedNesting
  | depth + 1, shape, words =>
    match shape with
    | .leaf l => do
      liftM l.check
      let (word, words) ← next words
      let dst ← fresh
      return ([.lift l.wordKind word dst], dst, words)
    | .string => do
      let (ptr, words) ← next words
      let (len, words) ← next words
      let dst ← fresh
      return ([.stringLift ptr len dst], dst, words)
    | .list element => do
      let (ptr, words) ← next words
      let (len, words) ← next words
      let (code, dst) ← liftList abi (load abi depth) element ptr len
      return (code, dst, words)
    | .product kind fields => do
      let (code, parts, words) ← liftFields (lift depth) fields words
      let dst ← fresh
      return (code ++ [.construct kind.title parts dst], dst, words)
    | .sum kind cases => do
      let slots ← liftM (Shape.flattenCases cases)
      let (discriminant, words) ← next words
      let (own, words) ← take words slots.length
      let arms ← cases.zipIdx.mapM fun ((label, case), index) => do
        match case with
        | none => return { index, label, body := [] }
        | some shape => do
          let (casts, payload) ← drainSlots (← liftM shape.flatten) own slots
          let (code, part, _) ← lift depth shape payload
          return { index, label, body := casts ++ code, yields := [part] }
      let dst ← fresh
      return ([.variantLift kind.title discriminant arms dst], dst, words)
    | .unsupported _ title => throw (Shape.unsupportedError title)
    | .unresolved cause => throw cause

/-- Frees what the fields of a product own, with `free` for each of them. -/
def freeFieldWords (free : Shape → List Local → PlanM (List Instruction × List Local)) :
    List (String × Shape) → List Local → PlanM (List Instruction × List Local)
  | [], words => return ([], words)
  | (_, field) :: rest, words => do
    let (first, words) ← free field words
    let (more, words) ← freeFieldWords free rest words
    return (first ++ more, words)

/-- Frees what a value of a type owns that is nested less than `depth` deep, and answers the words
that are left. -/
def freeFlat : Nat → Shape → List Local → PlanM (List Instruction × List Local)
  | 0, _, _ => throw .unboundedNesting
  | depth + 1, shape, words =>
    if !shape.ownsMemory then do
      let (_, words) ← take words (← liftM shape.flatten).length
      return ([], words)
    else match shape with
    | .string => do
      let (ptr, words) ← next words
      let (len, words) ← next words
      return ([.freeString ptr len], words)
    | .list element => do
      let (ptr, words) ← next words
      let (len, words) ← next words
      return (← freeList abi (freeStored abi depth) element ptr len, words)
    | .product _ fields => freeFieldWords (freeFlat depth) fields words
    | .sum _ cases => do
      let slots ← liftM (Shape.flattenCases cases)
      let (discriminant, words) ← next words
      let (own, words) ← take words slots.length
      let arms ← cases.zipIdx.filterMapM fun ((label, case), index) => do
        match case with
        | none => return none
        | some shape => do
          if !shape.ownsMemory then return none
          let (casts, payload) ← drainSlots (← liftM shape.flatten) own slots
          let (code, _) ← freeFlat depth shape payload
          return some { index, label, body := casts ++ code }
      return ([.switch discriminant arms], words)
    | .leaf _ => return ([], words)
    | .unsupported _ title => throw (Shape.unsupportedError title)
    | .unresolved cause => throw cause

/-! ### Whole functions -/

/-- A bound on how deeply a type is nested that is not part of itself. -/
def depthBound : Nat :=
  abi.arena.size + 2

/-- Stores native values of some types in a row. -/
def storeAll (ids : List TypeId) (values : List Local) (base : Local) :
    PlanM (List Instruction) := do
  let offsets ← liftM (abi.fieldOffsets ids)
  let code ← ((ids.zip values).zip offsets).mapM fun ((id, src), offset) =>
    store abi (depthBound abi) (abi.shape id) src base offset
  return code.flatten

/-- Loads native values of some types in a row. -/
def loadAll (ids : List TypeId) (base : Local) : PlanM (List Instruction × List Local) := do
  let offsets ← liftM (abi.fieldOffsets ids)
  let parts ← (ids.zip offsets).mapM fun (id, offset) =>
    load abi (depthBound abi) (abi.shape id) base offset
  return ((parts.map (·.1)).flatten, parts.map (·.2))

/-- Frees what values of some types own that are stored in a row. -/
def freeAll (ids : List TypeId) (base : Local) : PlanM (List Instruction) := do
  let offsets ← liftM (abi.fieldOffsets ids)
  let code ← (ids.zip offsets).mapM fun (id, offset) =>
    freeStored abi (depthBound abi) (abi.shape id) base offset
  return code.flatten

/-- Lowers native values of some types into words. -/
def lowerAll (ids : List TypeId) (values : List Local) :
    PlanM (List Instruction × List Local) := do
  let parts ← (ids.zip values).mapM fun (id, src) =>
    lower abi (depthBound abi) (abi.shape id) src
  return ((parts.map (·.1)).flatten, (parts.map (·.2)).flatten)

/-- Lifts one parameter after the other from words, and frees what it owned before the next. -/
def liftParams : List TypeId → List Local → PlanM (List Instruction × List Local × List Local)
  | [], words => return ([], [], words)
  | id :: rest, words => do
    let (own, words) ← take words (← liftM (abi.flatten id)).length
    let (lifting, part, _) ← lift abi (depthBound abi) (abi.shape id) own
    let (freeing, _) ← freeFlat abi (depthBound abi) (abi.shape id) own
    let (more, parts, words) ← liftParams rest words
    return (lifting ++ freeing ++ more, part :: parts, words)

/-- The caller side of a function: parameters and instructions. -/
def imported (sig : Signature) (module : Option String) (name : String) :
    PlanM (List Local × List Instruction) := do
  let params ← freshList sig.paramTypes.length
  let (lowering, args) ← match sig.paramArea with
    | some area => do
      let (code, ptr) ← allocate area
      pure (code ++ (← storeAll abi sig.paramTypes params ptr), [ptr])
    | none => lowerAll abi sig.paramTypes params
  let (reserving, pointer) ← match sig.returnArea with
    | some area => do
      let (code, ptr) ← allocate area
      pure (code, [ptr])
    | none => pure ([], [])
  let results ← freshList sig.coreResults.length
  let calling := Instruction.callCore module name (args ++ pointer) results
  let (lifting, values) ← match sig.returnArea, pointer with
    | some area, [ptr] => do
      let (loading, values) ← loadAll abi sig.resultTypes ptr
      let freeing ← freeAll abi sig.resultTypes ptr
      pure (loading ++ freeing ++ [.free ptr area.size area.align], values)
    | _, _ =>
      match sig.resultTypes with
      | [] => pure ([], [])
      | [id] => do
        let (lifting, value, _) ← lift abi (depthBound abi) (abi.shape id) results
        let (freeing, _) ← freeFlat abi (depthBound abi) (abi.shape id) results
        pure (lifting ++ freeing, [value])
      | _ => throw (.flatArityMismatch sig.resultTypes.length results.length)
  return (params, lowering ++ reserving ++ [calling] ++ lifting ++ [.finish values])

/-- Names the parameters of a core function. -/
def argsOf (params : List Local) : List Instruction :=
  params.zipIdx.map fun (dst, index) => .arg index dst

/-- What is left to free once the caller has read the results. -/
def postReturn (sig : Signature) (name : String) : PlanM PostReturnPlan := do
  let (params, freeing) ←
    if sig.hasReturnPointer then do
      let ptr ← fresh
      pure ([ptr], ← freeAll abi sig.resultTypes ptr)
    else do
      let params ← freshList sig.coreResults.length
      match sig.resultTypes with
      | [id] => do
        let (freeing, _) ← freeFlat abi (depthBound abi) (abi.shape id) params
        pure (params, freeing)
      | _ => pure (params, [])
  return { name := "cabi_post_" ++ name, params, body := argsOf params ++ freeing }

/-- The callee side of a function: parameters, instructions and the later cleanup. -/
def exported (sig : Signature) (name : String) :
    PlanM (List Local × List Instruction × Option PostReturnPlan) := do
  let params ← freshList sig.coreParams.length
  let (lifting, args, words) ← match sig.paramArea with
    | some area => do
      let (ptr, words) ← next params
      let (loading, args) ← loadAll abi sig.paramTypes ptr
      let freeing ← freeAll abi sig.paramTypes ptr
      pure (loading ++ freeing ++ [.free ptr area.size area.align], args, words)
    | none => liftParams abi sig.paramTypes params
  let pointer ← if sig.hasReturnPointer then some <$> next words else pure none
  let results ← freshList sig.resultTypes.length
  let calling := Instruction.callNative name args results
  let (lowering, values) ← match pointer with
    | some (ptr, _) => do pure (← storeAll abi sig.resultTypes results ptr, [])
    | none => lowerAll abi sig.resultTypes results
  let post ← if sig.needsPostReturn then some <$> postReturn abi sig name else pure none
  return (params, argsOf params ++ lifting ++ [calling] ++ lowering ++ [.finish values], post)

end Plan

namespace Abi

/-- The plan of a function node, with temporaries numbered on from those handed out before. -/
def planWith (abi : Abi) (module : Option String) (name : String) (func : TypeId)
    (direction : Direction) : PlanM FunctionPlan := do
  let signature ← liftM (abi.functionSignature func)
  match direction with
  | .imported => do
    let (params, body) ← Plan.imported abi signature module name
    return { name, module, direction, signature, params, body, postReturn := none }
  | .exported => do
    let (params, body, postReturn) ← Plan.exported abi signature name
    return { name, module, direction, signature, params, body, postReturn }

/-- The plan of a function node. -/
def plan (abi : Abi) (module : Option String) (name : String) (func : TypeId)
    (direction : Direction) : Except AbiError FunctionPlan :=
  ((abi.planWith module name func direction).run.run 0).1

end Abi

end ComponentAbi
