import Mathlib.Data.Int.ModEq
import Mathlib.Tactic.Linarith
import Mathlib.Tactic.Ring

/-!
# Two's-complement integers

Fixed-width signed arithmetic computes in the integers and wraps the result.
-/

namespace MrsOptimization

/-- The value of the lowest `bits` bits of `x` in two's complement. -/
def wrap (bits : ℕ) (x : ℤ) : ℤ :=
  x.bmod (2 ^ bits)

theorem wrap_of_mem_range {bits : ℕ} {x : ℤ} (lower : -2 ^ bits ≤ x) (upper : x < 2 ^ bits) :
    wrap (bits + 1) x = x := by
  have double : ((2 ^ (bits + 1) : ℕ) : ℤ) = 2 * 2 ^ bits := by push_cast; ring
  rw [wrap]
  apply Int.bmod_eq_of_le
  · omega
  · omega

/-- A wrapped number is not below the least one. -/
theorem neg_le_wrap (bits : ℕ) (x : ℤ) : -2 ^ bits ≤ wrap (bits + 1) x := by
  have double : ((2 ^ (bits + 1) : ℕ) : ℤ) = 2 * 2 ^ bits := by push_cast; ring
  have positive : 0 < 2 ^ (bits + 1) := Nat.two_pow_pos _
  have := Int.le_bmod (x := x) positive
  rw [wrap]
  omega

/-- A non-negative number only gets smaller by wrapping. -/
theorem wrap_le {bits : ℕ} {x : ℤ} (nonneg : 0 ≤ x) : wrap bits x ≤ x := by
  have power : (0 : ℤ) ≤ ((2 ^ bits : ℕ) : ℤ) := Int.natCast_nonneg _
  have quotient := Int.mul_nonneg power (Int.ediv_nonneg nonneg power)
  have division := Int.mul_ediv_add_emod x ((2 ^ bits : ℕ) : ℤ)
  rw [wrap, Int.bmod_def]
  split <;> linarith

end MrsOptimization
