import Mathlib.Logic.Function.Iterate
import Mathlib.Order.Basic

/-!
# While loops that may fail

`whileLoop guard body fuel` runs a loop whose body may throw, for at most `fuel`
tests of the guard. `whileLoop_total` is the rule of total correctness: an
invariant and a decreasing variant give one final state for all large enough
fuel.
-/

namespace MrsOptimization

universe u

variable {σ : Type u}

/-- `none` stands for an exception of the body, and for running out of fuel. -/
def whileLoop (guard : σ → Bool) (body : σ → Option σ) : ℕ → σ → Option σ
  | 0, _ => none
  | fuel + 1, state => if guard state then (body state).bind (whileLoop guard body fuel) else state

/-- Partial correctness: what the body keeps holds at the end. -/
theorem whileLoop_invariant {guard : σ → Bool} {body : σ → Option σ} {invariant : σ → Prop}
    (step : ∀ state next, invariant state → guard state = true → body state = some next →
      invariant next)
    {fuel : ℕ} {state final : σ} (start : invariant state)
    (runs : whileLoop guard body fuel state = some final) : invariant final := by
  induction fuel generalizing state with
  | zero => simp [whileLoop] at runs
  | succ fuel ih =>
      cases continues : guard state with
      | false =>
          rw [whileLoop, if_neg (by simp [continues])] at runs
          exact Option.some.inj runs ▸ start
      | true =>
          rw [whileLoop, if_pos continues, Option.bind_eq_some_iff] at runs
          rcases runs with ⟨next, reached, later⟩
          exact ih (step state next start continues reached) later

/-- A loop that never ends from the next state never ends from this one. -/
theorem whileLoop_eq_none_of_step {guard : σ → Bool} {body : σ → Option σ} {state next : σ}
    (continues : guard state = true) (reached : body state = some next)
    (never : ∀ fuel, whileLoop guard body fuel next = none) (fuel : ℕ) :
    whileLoop guard body fuel state = none := by
  cases fuel with
  | zero => rfl
  | succ fuel =>
      rw [whileLoop, if_pos continues, reached, Option.bind_some]
      exact never fuel

/-- Total correctness from an invariant and a variant. -/
theorem whileLoop_total {guard : σ → Bool} {body : σ → Option σ} {invariant : σ → Prop}
    {variant : σ → ℕ}
    (step : ∀ state, invariant state → guard state = true →
      ∃ next, body state = some next ∧ invariant next ∧ variant next < variant state)
    {state : σ} (start : invariant state) :
    ∃ final, (∀ fuel, variant state < fuel → whileLoop guard body fuel state = some final) ∧
      invariant final ∧ guard final = false := by
  induction measure : variant state using Nat.strongRecOn generalizing state with
  | ind size ih =>
      cases continues : guard state with
      | false =>
          refine ⟨state, fun fuel enough => ?_, start, continues⟩
          cases fuel with
          | zero => exact absurd enough (Nat.not_lt_zero _)
          | succ fuel => simp [whileLoop, continues]
      | true =>
          rcases step state start continues with ⟨next, runs, kept, smaller⟩
          rcases ih (variant next) (measure ▸ smaller) kept rfl with
            ⟨final, later, finalInv, finished⟩
          refine ⟨final, fun fuel enough => ?_, finalInv, finished⟩
          cases fuel with
          | zero => exact absurd enough (Nat.not_lt_zero _)
          | succ fuel =>
              rw [whileLoop, if_pos continues, runs, Option.bind_some]
              apply later
              omega

/-- A loop whose body cannot fail ends when some iterate of the body ends it. -/
theorem whileLoop_iterate {guard : σ → Bool} {body : σ → σ} {n : ℕ} {state : σ}
    (stops : guard (body^[n] state) = false) :
    ∃ final, (∀ fuel, n < fuel →
        whileLoop guard (fun state => some (body state)) fuel state = some final) ∧
      guard final = false := by
  induction n generalizing state with
  | zero =>
      refine ⟨state, fun fuel enough => ?_, stops⟩
      rcases Nat.exists_eq_add_of_lt enough with ⟨fuel, rfl⟩
      rw [whileLoop, if_neg (by simpa using stops)]
  | succ n ih =>
      cases continues : guard state with
      | false =>
          refine ⟨state, fun fuel enough => ?_, continues⟩
          rcases Nat.exists_eq_add_of_lt enough with ⟨fuel, rfl⟩
          rw [whileLoop, if_neg (by simp [continues])]
      | true =>
          rcases ih stops with ⟨final, later, finished⟩
          refine ⟨final, fun fuel enough => ?_, finished⟩
          rcases Nat.exists_eq_add_of_lt enough with ⟨fuel, rfl⟩
          rw [whileLoop, if_pos continues, Option.bind_some]
          apply later
          omega

end MrsOptimization
