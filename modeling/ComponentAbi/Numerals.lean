/-!
# Powers and zero

Mathlib finds powers and the zero of natural numbers by way of their algebraic structure, the core
library has instances of its own. Here they are those of the core library whatever else a module
imports, so that a definition reads the same with Mathlib and without it.
-/

namespace ComponentAbi

attribute [scoped instance (high)] instPowNat Zero.ofOfNat0

end ComponentAbi
