import ComponentAbi.Numerals

/-!
# Alignment

Rounding an address up to an alignment, by clearing the low bits of `value + (align - 1)`.

* `alignUp_two_pow`: for a power of two, the result is the least multiple that is no smaller.
-/

namespace ComponentAbi

/-- Rounds `value` up to a multiple of `align`, which should be a power of two: the bits of
`align - 1` are cleared in `value + align - 1`. -/
def alignUp (value align : Nat) : Nat :=
  let top := value + align - 1
  top - (top &&& (align - 1))

theorem alignUp_two_pow (value k : Nat) :
    alignUp value (2 ^ k) = (value + 2 ^ k - 1) / 2 ^ k * 2 ^ k := by
  simp only [alignUp, Nat.and_two_pow_sub_one_eq_mod]
  have := Nat.div_add_mod' (value + 2 ^ k - 1) (2 ^ k)
  omega

theorem two_pow_dvd_alignUp (value k : Nat) : 2 ^ k ∣ alignUp value (2 ^ k) := by
  rw [alignUp_two_pow]
  exact Nat.dvd_mul_left _ _

theorem le_alignUp_two_pow (value k : Nat) : value ≤ alignUp value (2 ^ k) := by
  have pos := Nat.two_pow_pos k
  have rem := Nat.mod_lt (value + 2 ^ k - 1) pos
  have := Nat.div_add_mod' (value + 2 ^ k - 1) (2 ^ k)
  rw [alignUp_two_pow]
  omega

theorem alignUp_two_pow_lt (value k : Nat) : alignUp value (2 ^ k) < value + 2 ^ k := by
  have pos := Nat.two_pow_pos k
  have := Nat.div_add_mod' (value + 2 ^ k - 1) (2 ^ k)
  rw [alignUp_two_pow]
  omega

end ComponentAbi
