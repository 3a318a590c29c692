import ComponentAbi.Plan.Generate

/-!
# Generation, part by part

The generation of the arms of a sum, and of whole functions, as sequences of named parts
(`Plan.store_sum`, `Plan.lower_sum`, `Plan.imported_eq`, `Plan.exported_eq`, `Plan.postReturn_eq`).
What is proved of a generation is proved of its parts, one after the other.
-/

namespace ComponentAbi

namespace Plan

open PlanM

variable {abi : Abi}

/-! ### Arms -/

/-- Stores the payload of a case. -/
def storeCase (store : Shape → Local → PlanM (List Instruction)) :
    Option Shape → Option Local → PlanM (List Instruction)
  | some shape, some part => store shape part
  | _, _ => return []

/-- The arm that stores a case. -/
def storeArm (store : Shape → Local → Local → Nat → PlanM (List Instruction)) (layout : SumLayout)
    (base : Local) (offset : Nat) (case : String × Option Shape) (index : Nat) : PlanM Arm := do
  let payload ← freshFor case.2
  let discriminant ← fresh
  let code ← storeCase (fun s part => store s part base (offset + layout.payloadOffset)) case.2
    payload
  let body := Instruction.const .i32 index discriminant
    :: .store (discriminantWidth layout.discriminantSize) discriminant base offset :: code
  return { index, label := case.1, payload, body }

theorem store_sum (d : Nat) (kind : SumKind) (cases : List (String × Option Shape))
    (src base : Local) (offset : Nat) :
    store abi (d + 1) (.sum kind cases) src base offset = (do
      let layout ← liftM (Shape.sumLayout kind cases)
      let arms ← cases.zipIdx.mapM fun (case, index) =>
        storeArm (store abi d) layout base offset case index
      return [.matchCase kind.title src arms]) := by
  refine bind_congr fun layout => congrArg (· >>= _) (congrArg (cases.zipIdx.mapM ·) ?_)
  funext ⟨⟨label, case⟩, index⟩
  refine bind_congr fun payload => bind_congr fun discriminant => ?_
  cases case <;> cases payload <;> rfl

/-- The arm that loads a case. -/
def loadArm (load : Shape → Local → Nat → PlanM (List Instruction × Local)) (layout : SumLayout)
    (base : Local) (offset : Nat) (case : String × Option Shape) (index : Nat) : PlanM Arm := do
  match case.2 with
  | none => return { index, label := case.1, body := [] }
  | some shape => do
    let (body, part) ← load shape base (offset + layout.payloadOffset)
    return { index, label := case.1, body, yields := [part] }

theorem load_sum (d : Nat) (kind : SumKind) (cases : List (String × Option Shape)) (base : Local)
    (offset : Nat) :
    load abi (d + 1) (.sum kind cases) base offset = (do
      let layout ← liftM (Shape.sumLayout kind cases)
      let (code, discriminant) ←
        loadWord (discriminantWidth layout.discriminantSize) base offset
      let arms ← cases.zipIdx.mapM fun (case, index) =>
        loadArm (load abi d) layout base offset case index
      let dst ← fresh
      return (code ++ [.variantLift kind.title discriminant arms dst], dst)) := by
  refine bind_congr fun layout => bind_congr fun discriminant =>
    congrArg (· >>= _) (congrArg (cases.zipIdx.mapM ·) ?_)
  funext ⟨⟨label, case⟩, index⟩
  cases case <;> rfl

/-- The arm that frees a stored case, if it owns memory. -/
def freeStoredArm (free : Shape → Local → Nat → PlanM (List Instruction)) (layout : SumLayout)
    (base : Local) (offset : Nat) (case : String × Option Shape) (index : Nat) :
    PlanM (Option Arm) := do
  match case.2 with
  | none => return none
  | some shape => do
    if !shape.ownsMemory then return none
    let body ← free shape base (offset + layout.payloadOffset)
    return some { index, label := case.1, body }

/-- Where no field owns memory, there is nothing to free. -/
theorem freeStored_product_nothing (d : Nat) (kind : ProductKind)
    {fields : List (String × Shape)} (h : Shape.fieldsOwnMemory fields = false) (base : Local)
    (offset : Nat) : freeStored abi (d + 1) (.product kind fields) base offset = pure [] := by
  rw [freeStored, h]
  rfl

theorem freeStored_product (d : Nat) (kind : ProductKind) {fields : List (String × Shape)}
    (h : Shape.fieldsOwnMemory fields = true) (base : Local) (offset : Nat) :
    freeStored abi (d + 1) (.product kind fields) base offset = (do
      let offsets ← liftM (Shape.fieldOffsets fields)
      let code ← (fields.zip offsets).mapM fun (field, o) =>
        freeStored abi d field.2 base (offset + o)
      return code.flatten) := by
  rw [freeStored, h]
  rfl

/-- Where no payload owns memory, there is nothing to free. -/
theorem freeStored_sum_nothing (d : Nat) (kind : SumKind) {cases : List (String × Option Shape)}
    (h : Shape.casesOwnMemory cases = false) (base : Local) (offset : Nat) :
    freeStored abi (d + 1) (.sum kind cases) base offset = pure [] := by
  rw [freeStored, h]
  rfl

theorem freeStored_sum (d : Nat) {kind : SumKind} {cases : List (String × Option Shape)}
    (h : Shape.casesOwnMemory cases = true) (base : Local) (offset : Nat) :
    freeStored abi (d + 1) (.sum kind cases) base offset = (do
      let layout ← liftM (Shape.sumLayout kind cases)
      let (code, discriminant) ←
        loadWord (discriminantWidth layout.discriminantSize) base offset
      let arms ← cases.zipIdx.filterMapM fun (case, index) =>
        freeStoredArm (freeStored abi d) layout base offset case index
      return code ++ [.switch discriminant arms]) := by
  rw [freeStored, h]
  refine bind_congr fun layout => bind_congr fun discriminant =>
    congrArg (· >>= _) (congrArg (cases.zipIdx.filterMapM ·) ?_)
  funext ⟨⟨label, case⟩, index⟩
  cases case <;> rfl

/-- The words of the payload of a case, with their kinds. -/
def lowerCase (lower : Shape → Local → PlanM (List Instruction × List Local)) :
    Option Shape → Option Local → PlanM (List Instruction × List (Local × CoreType))
  | some shape, some part => do
    let (code, words) ← lower shape part
    let kinds ← liftM shape.flatten
    return (code, words.zip kinds)
  | _, _ => return ([], [])

/-- The arm that lowers a case. -/
def lowerArm (lower : Shape → Local → PlanM (List Instruction × List Local))
    (slots : List CoreType) (case : String × Option Shape) (index : Nat) : PlanM Arm := do
  let payload ← freshFor case.2
  let discriminant ← fresh
  let (code, words) ← lowerCase lower case.2 payload
  let (fill, filled) ← fillSlots slots words
  let body := Instruction.const .i32 index discriminant :: code ++ fill
  return { index, label := case.1, payload, body, yields := discriminant :: filled }

theorem lower_sum (d : Nat) (kind : SumKind) (cases : List (String × Option Shape))
    (src : Local) :
    lower abi (d + 1) (.sum kind cases) src = (do
      let slots ← liftM (Shape.flattenCases cases)
      let results ← freshList (slots.length + 1)
      let arms ← cases.zipIdx.mapM fun (case, index) => lowerArm (lower abi d) slots case index
      return ([.variantLower kind.title src results arms], results)) := by
  refine bind_congr fun slots => bind_congr fun results =>
    congrArg (· >>= _) (congrArg (cases.zipIdx.mapM ·) ?_)
  funext ⟨⟨label, case⟩, index⟩
  refine bind_congr fun payload => bind_congr fun discriminant => ?_
  cases case <;> cases payload <;> simp [lowerCase]

/-- The arm that lifts a case. -/
def liftArm (lift : Shape → List Local → PlanM (List Instruction × Local × List Local))
    (slots : List CoreType) (own : List Local) (case : String × Option Shape) (index : Nat) :
    PlanM Arm := do
  match case.2 with
  | none => return { index, label := case.1, body := [] }
  | some shape => do
    let (casts, payload) ← drainSlots (← liftM shape.flatten) own slots
    let (code, part, _) ← lift shape payload
    return { index, label := case.1, body := casts ++ code, yields := [part] }

theorem lift_sum (d : Nat) (kind : SumKind) (cases : List (String × Option Shape))
    (words : List Local) :
    lift abi (d + 1) (.sum kind cases) words = (do
      let slots ← liftM (Shape.flattenCases cases)
      let (discriminant, words) ← next words
      let (own, words) ← take words slots.length
      let arms ← cases.zipIdx.mapM fun (case, index) => liftArm (lift abi d) slots own case index
      let dst ← fresh
      return ([.variantLift kind.title discriminant arms dst], dst, words)) := by
  refine bind_congr fun slots => bind_congr fun ⟨discriminant, words⟩ =>
    bind_congr fun ⟨own, words⟩ => congrArg (· >>= _) (congrArg (cases.zipIdx.mapM ·) ?_)
  funext ⟨⟨label, case⟩, index⟩
  cases case <;> rfl

/-- The arm that frees a case in words, if it owns memory. -/
def freeFlatArm (free : Shape → List Local → PlanM (List Instruction × List Local))
    (slots : List CoreType) (own : List Local) (case : String × Option Shape) (index : Nat) :
    PlanM (Option Arm) := do
  match case.2 with
  | none => return none
  | some shape => do
    if !shape.ownsMemory then return none
    let (casts, payload) ← drainSlots (← liftM shape.flatten) own slots
    let (code, _) ← free shape payload
    return some { index, label := case.1, body := casts ++ code }

/-- The words of what owns no memory are passed over. -/
theorem freeFlat_nothing (d : Nat) {s : Shape} (h : s.ownsMemory = false) (words : List Local) :
    freeFlat abi (d + 1) s words = (do
      let (_, words) ← take words (← liftM s.flatten).length
      return ([], words)) := by
  rw [freeFlat.eq_def]
  simp only [h, Bool.not_false, ↓reduceIte]

theorem freeFlat_product (d : Nat) {kind : ProductKind} {fields : List (String × Shape)}
    (h : (Shape.product kind fields).ownsMemory = true) (words : List Local) :
    freeFlat abi (d + 1) (.product kind fields) words =
      freeFieldWords (freeFlat abi d) fields words := by
  rw [freeFlat, h]
  rfl

theorem freeFlat_sum (d : Nat) {kind : SumKind} {cases : List (String × Option Shape)}
    (h : (Shape.sum kind cases).ownsMemory = true) (words : List Local) :
    freeFlat abi (d + 1) (.sum kind cases) words = (do
      let slots ← liftM (Shape.flattenCases cases)
      let (discriminant, words) ← next words
      let (own, words) ← take words slots.length
      let arms ← cases.zipIdx.filterMapM fun (case, index) =>
        freeFlatArm (freeFlat abi d) slots own case index
      return ([.switch discriminant arms], words)) := by
  rw [freeFlat, h]
  refine bind_congr fun slots => bind_congr fun ⟨discriminant, words⟩ =>
    bind_congr fun ⟨own, words⟩ => congrArg (· >>= _) (congrArg (cases.zipIdx.filterMapM ·) ?_)
  funext ⟨⟨label, case⟩, index⟩
  cases case <;> rfl

/-! ### Whole functions -/

/-- Lowers native values of some types, into an area if there is one. -/
def lowerInto (abi : Abi) (ids : List TypeId) (values : List Local) :
    Option Layout → PlanM (List Instruction × List Local)
  | some area => do
    let (code, ptr) ← allocate area
    let storing ← storeAll abi ids values ptr
    return (code ++ storing, [ptr])
  | none => lowerAll abi ids values

/-- Reserves an area, if there is to be one. -/
def reserve : Option Layout → PlanM (List Instruction × List Local)
  | some area => do
    let (code, ptr) ← allocate area
    return (code, [ptr])
  | none => return ([], [])

/-- Lifts results, and frees what they own. -/
def receive (abi : Abi) (ids : List TypeId) (results : List Local) :
    Option Layout → List Local → PlanM (List Instruction × List Local)
  | some area, [ptr] => do
    let (loading, values) ← loadAll abi ids ptr
    let freeing ← freeAll abi ids ptr
    return (loading ++ freeing ++ [.free ptr area.size area.align], values)
  | _, _ =>
    match ids with
    | [] => return ([], [])
    | [id] => do
      let (lifting, value, _) ← lift abi (depthBound abi) (abi.shape id) results
      let (freeing, _) ← freeFlat abi (depthBound abi) (abi.shape id) results
      return (lifting ++ freeing, [value])
    | _ => throw (.flatArityMismatch ids.length results.length)

theorem imported_eq (abi : Abi) (sig : Signature) (module : Option String) (name : String) :
    imported abi sig module name = (do
      let params ← freshList sig.paramTypes.length
      let (lowering, args) ← lowerInto abi sig.paramTypes params sig.paramArea
      let (reserving, pointer) ← reserve sig.returnArea
      let results ← freshList sig.coreResults.length
      let (lifting, values) ← receive abi sig.resultTypes results sig.returnArea pointer
      return (params, lowering ++ reserving ++ [.callCore module name (args ++ pointer) results]
        ++ lifting ++ [.finish values])) := by
  refine bind_congr fun params => ?_
  cases sig.paramArea <;> cases sig.returnArea <;>
    rcases sig.resultTypes with _ | ⟨id, _ | ⟨id', ids⟩⟩ <;>
    simp [lowerInto, reserve, receive]

/-- Lifts parameters, from an area if there is one, frees what they own, and answers the words that
are left. -/
def liftFrom (abi : Abi) (ids : List TypeId) (params : List Local) :
    Option Layout → PlanM (List Instruction × List Local × List Local)
  | some area => do
    let (ptr, words) ← next params
    let (loading, args) ← loadAll abi ids ptr
    let freeing ← freeAll abi ids ptr
    return (loading ++ freeing ++ [.free ptr area.size area.align], args, words)
  | none => liftParams abi ids params

/-- The address of the area that is ready for results, if there is one. -/
def pointerOf (words : List Local) : Option Layout → PlanM (Option Local)
  | some _ => do return some (← next words).1
  | none => return none

/-- Lowers results, into the area that is ready for them if there is one. -/
def lowerBack (abi : Abi) (ids : List TypeId) (results : List Local) :
    Option Local → PlanM (List Instruction × List Local)
  | some ptr => do return (← storeAll abi ids results ptr, [])
  | none => lowerAll abi ids results

/-- The plan of what is left to do later, if anything is. -/
def cleanup (abi : Abi) (sig : Signature) (name : String) : PlanM (Option PostReturnPlan) :=
  if sig.needsPostReturn then some <$> postReturn abi sig name else return none

theorem exported_eq (abi : Abi) (sig : Signature) (name : String) :
    exported abi sig name = (do
      let params ← freshList sig.coreParams.length
      let (lifting, args, words) ← liftFrom abi sig.paramTypes params sig.paramArea
      let pointer ← pointerOf words sig.returnArea
      let results ← freshList sig.resultTypes.length
      let (lowering, values) ← lowerBack abi sig.resultTypes results pointer
      let post ← cleanup abi sig name
      return (params, argsOf params ++ lifting ++ [.callNative name args results] ++ lowering
        ++ [.finish values], post)) := by
  refine bind_congr fun params => ?_
  rw [Signature.hasReturnPointer, cleanup]
  cases sig.paramArea <;> cases sig.returnArea <;> cases sig.needsPostReturn <;>
    simp [liftFrom, pointerOf, lowerBack]

/-- Frees what results own that went back as words or in an area. -/
def freeBack (abi : Abi) (ids : List TypeId) (count : Nat) :
    Option Layout → PlanM (List Local × List Instruction)
  | some _ => do
    let ptr ← fresh
    return ([ptr], ← freeAll abi ids ptr)
  | none => do
    let params ← freshList count
    match ids with
    | [id] => do
      let (freeing, _) ← freeFlat abi (depthBound abi) (abi.shape id) params
      return (params, freeing)
    | _ => return (params, [])

theorem postReturn_eq (abi : Abi) (sig : Signature) (name : String) :
    postReturn abi sig name = (do
      let (params, freeing) ← freeBack abi sig.resultTypes sig.coreResults.length sig.returnArea
      return { name := "cabi_post_" ++ name, params, body := argsOf params ++ freeing }) := by
  rw [postReturn, Signature.hasReturnPointer]
  cases sig.returnArea <;> rcases sig.resultTypes with _ | ⟨id, _ | ⟨id', ids⟩⟩ <;>
    simp [freeBack]

end Plan

end ComponentAbi
