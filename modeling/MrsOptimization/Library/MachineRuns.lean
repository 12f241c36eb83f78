import Mathlib.Data.List.Forall2
import Mathlib.Data.List.ReduceOption

/-!
# Runs of a machine that answers

`step input state` is what a machine answers to an input, and its next state. A
run is the list of all answers with the last state.
-/

namespace MrsOptimization

universe u v w

variable {ι : Type u} {ο : Type v} {σ : Type w} {step : ι → σ → ο × σ}

def answers (step : ι → σ → ο × σ) : List ι → σ → List ο × σ
  | [], state => ([], state)
  | input :: rest, state =>
      ((step input state).1 :: (answers step rest (step input state).2).1,
        (answers step rest (step input state).2).2)

theorem answers_cons (input : ι) (rest : List ι) (state : σ) :
    answers step (input :: rest) state =
      ((step input state).1 :: (answers step rest (step input state).2).1,
        (answers step rest (step input state).2).2) :=
  rfl

theorem answers_append (first rest : List ι) (state : σ) :
    answers step (first ++ rest) state =
      ((answers step first state).1 ++ (answers step rest (answers step first state).2).1,
        (answers step rest (answers step first state).2).2) := by
  induction first generalizing state with
  | nil => rfl
  | cons input first ih => rw [List.cons_append, answers_cons, ih, answers_cons, List.cons_append]

end MrsOptimization
