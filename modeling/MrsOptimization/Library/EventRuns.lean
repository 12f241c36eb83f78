import Mathlib.Order.Basic

/-!
# Runs of a system that reacts to events

`step event state` is the state after an event, or `none` when the event cannot
happen in that state. What every step preserves holds at the end of a run, and
states are related along a run if a step relates them.
-/

namespace MrsOptimization

universe u v

variable {S : Type u} {E : Type v} {step : E → S → Option S}

/-- The state after some events, if these can happen in turn. -/
def runEvents (step : E → S → Option S) : List E → S → Option S
  | [], state => some state
  | event :: rest, state => (step event state).bind (runEvents step rest)

theorem runEvents_append (first rest : List E) (state : S) :
    runEvents step (first ++ rest) state =
      (runEvents step first state).bind (runEvents step rest) := by
  induction first generalizing state with
  | nil => rfl
  | cons event first ih =>
      cases stepped : step event state with
      | none => simp [runEvents, stepped]
      | some next => simp [runEvents, stepped, ih]

/-- A run of two parts goes through a state in between. -/
theorem exists_middle {first rest : List E} {state final : S}
    (run : runEvents step (first ++ rest) state = some final) :
    ∃ middle, runEvents step first state = some middle ∧
      runEvents step rest middle = some final := by
  rw [runEvents_append] at run
  exact Option.bind_eq_some_iff.mp run

theorem runEvents_invariant (holds : S → Prop)
    (preserved : ∀ event state next, holds state → step event state = some next → holds next)
    {events : List E} {state final : S} (start : holds state)
    (run : runEvents step events state = some final) : holds final := by
  induction events generalizing state with
  | nil =>
      cases run
      exact start
  | cons event rest ih =>
      rcases Option.bind_eq_some_iff.mp run with ⟨next, stepped, later⟩
      exact ih (preserved event state next start stepped) later

/-- A system follows another one along a run, if it can follow each of the events. -/
theorem runEvents_follows {T : Type*} {step' : E → T → Option T} (related : S → T → Prop)
    {allowed : E → Prop}
    (follows : ∀ event, allowed event → ∀ state state' next', related state state' →
      step' event state' = some next' → ∃ next, step event state = some next ∧ related next next')
    {events : List E} (all : ∀ event ∈ events, allowed event) {state : S} {state' final' : T}
    (start : related state state') (run : runEvents step' events state' = some final') :
    ∃ final, runEvents step events state = some final ∧ related final final' := by
  induction events generalizing state state' with
  | nil =>
      cases run
      exact ⟨state, rfl, start⟩
  | cons event rest ih =>
      rcases Option.bind_eq_some_iff.mp run with ⟨next', stepped', later'⟩
      rcases follows event (all event (List.mem_cons_self ..)) state state' next' start stepped'
        with ⟨next, stepped, related⟩
      rcases ih (fun event member => all event (List.mem_cons_of_mem _ member)) related later'
        with ⟨final, later, result⟩
      refine ⟨final, ?_, result⟩
      rw [runEvents, stepped]
      exact later

end MrsOptimization
