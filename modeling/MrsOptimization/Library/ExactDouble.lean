import Mathlib.Algebra.Order.Field.Basic

/-!
# Doubles in exact arithmetic

The values of a double without rounding: the elements of a field, the two
infinities and not-a-number. Of finite values only division leaves the field. Comparisons with
not-a-number are false.
-/

namespace MrsOptimization

inductive ExactDouble (K : Type*) where
  | negInfinity
  | finite (value : K)
  | posInfinity
  | nan

namespace ExactDouble

section Order

variable {K : Type*} [LinearOrder K]

/-- `x < y` on doubles. -/
def less : ExactDouble K → ExactDouble K → Bool
  | .negInfinity, .finite _ => true
  | .negInfinity, .posInfinity => true
  | .finite x, .finite y => decide (x < y)
  | .finite _, .posInfinity => true
  | _, _ => false

@[simp]
theorem less_finite (x y : K) : less (.finite x) (.finite y) = decide (x < y) := rfl

@[simp]
theorem posInfinity_less (x : ExactDouble K) : less .posInfinity x = false := by
  cases x <;> rfl

theorem less_trans (x y z : ExactDouble K) (first : less x y) (second : less y z) :
    less x z := by
  cases x with
  | negInfinity => cases y <;> cases z <;> simp_all [less]
  | finite x =>
      cases y with
      | finite y =>
          cases z with
          | finite z =>
              simp only [less_finite, decide_eq_true_eq] at first second ⊢
              exact first.trans second
          | _ => simp_all [less]
      | _ => simp_all [less]
  | posInfinity => simp at first
  | nan => cases y <;> simp [less] at first

end Order

section Division

variable {K : Type*} [Field K] [LinearOrder K]

/-- `x / y` on doubles; there is only one zero. -/
def divide (x y : K) : ExactDouble K :=
  if y ≠ 0 then .finite (x / y)
  else if 0 < x then .posInfinity
  else if x < 0 then .negInfinity
  else .nan

theorem divide_of_ne_zero (x : K) {y : K} (nonzero : y ≠ 0) : divide x y = .finite (x / y) :=
  if_pos nonzero

theorem divide_zero_of_pos {x : K} (positive : 0 < x) : divide x 0 = .posInfinity := by
  simp [divide, positive]

/-- `x / y` on doubles; a negative zero is not distinguished. -/
def div : ExactDouble K → ExactDouble K → ExactDouble K
  | .finite x, .finite y => divide x y
  | .finite _, .posInfinity => .finite 0
  | .finite _, .negInfinity => .finite 0
  | .posInfinity, .finite y => if y < 0 then .negInfinity else .posInfinity
  | .negInfinity, .finite y => if y < 0 then .posInfinity else .negInfinity
  | _, _ => .nan

@[simp]
theorem div_finite (x y : K) : div (.finite x) (.finite y) = divide x y := rfl

/-- A reciprocal is a number that is not negative if and only if it is one of a positive number. -/
theorem divide_one_nonneg_iff [IsStrictOrderedRing K] (y : K) :
    (∃ value, divide 1 y = .finite value ∧ 0 ≤ value) ↔ 0 < y := by
  constructor
  · rintro ⟨value, quotient, nonneg⟩
    by_cases nonzero : y = 0
    · subst nonzero
      rw [divide_zero_of_pos one_pos] at quotient
      cases quotient
    · rw [divide_of_ne_zero 1 nonzero] at quotient
      cases quotient
      exact (one_div_nonneg.mp nonneg).lt_of_ne' nonzero
  · intro positive
    exact ⟨1 / y, divide_of_ne_zero 1 positive.ne', one_div_nonneg.mpr positive.le⟩

end Division

section Addition

variable {K : Type*} [Add K]

/-- `x + y` on doubles. -/
def add : ExactDouble K → ExactDouble K → ExactDouble K
  | .finite x, .finite y => .finite (x + y)
  | .finite _, .posInfinity => .posInfinity
  | .finite _, .negInfinity => .negInfinity
  | .posInfinity, .finite _ => .posInfinity
  | .posInfinity, .posInfinity => .posInfinity
  | .negInfinity, .finite _ => .negInfinity
  | .negInfinity, .negInfinity => .negInfinity
  | _, _ => .nan

@[simp]
theorem add_finite (x y : K) : add (.finite x) (.finite y) = .finite (x + y) := rfl

end Addition

end ExactDouble

end MrsOptimization
