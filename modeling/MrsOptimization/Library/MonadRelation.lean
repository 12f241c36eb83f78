import Mathlib.Data.List.Forall2

/-!
# Relations between programs of two monads

A `MonadRelation` relates programs of two monads and passes through sequencing,
so that a program that is written against operations of a monad is related to
itself in the two monads as soon as the operations are. Between programs that
throw and keep their state, a relation of states gives one: related states lead
to the same outcome and to related states.
-/

namespace MrsOptimization

/-- A relation of programs that holds of pure programs and passes through sequencing. -/
structure MonadRelation (m n : Type → Type) [Monad m] [Monad n] where
  Related : ∀ {α : Type}, m α → n α → Prop
  pure : ∀ {α : Type} (value : α), Related (Pure.pure value) (Pure.pure value)
  bind : ∀ {α β : Type} {first : m α} {first' : n α} {next : α → m β} {next' : α → n β},
    Related first first' → (∀ value, Related (next value) (next' value)) →
      Related (first >>= next) (first' >>= next')

/-- The results of running a program `n` times. -/
def times {m : Type → Type} [Monad m] {α : Type} (program : m α) :
    (n : ℕ) → m {values : List α // values.length = n}
  | 0 => pure ⟨[], rfl⟩
  | n + 1 => do
      let value ← program
      let rest ← times program n
      pure ⟨value :: rest.1, by rw [List.length_cons, rest.2]⟩

namespace MonadRelation

variable {m n : Type → Type} [Monad m] [Monad n] (R : MonadRelation m n) {α β : Type}

theorem times {program : m α} {program' : n α} (related : R.Related program program')
    (count : ℕ) : R.Related (times program count) (MrsOptimization.times program' count) := by
  induction count with
  | zero => exact R.pure _
  | succ count ih =>
      apply R.bind related
      intro value
      apply R.bind ih
      intro rest
      exact R.pure _

theorem mapM (values : List α) {program : α → m β} {program' : α → n β}
    (related : ∀ value, R.Related (program value) (program' value)) :
    R.Related (values.mapM' program) (values.mapM' program') := by
  induction values with
  | nil => exact R.pure []
  | cons value rest ih =>
      apply R.bind (related value)
      intro first
      apply R.bind ih
      intro later
      exact R.pure _

theorem forM (values : List α) {program : α → m PUnit} {program' : α → n PUnit}
    (related : ∀ value, R.Related (program value) (program' value)) :
    R.Related (values.forM program) (values.forM program') := by
  induction values with
  | nil => exact R.pure _
  | cons value rest ih =>
      apply R.bind (related value)
      intro _
      exact ih

end MonadRelation

section Throwing

variable {ε σ τ α β : Type}

theorem bind_ok {first : EStateM ε σ α} {next : α → EStateM ε σ β} {state middle : σ} {value : α}
    (runs : first state = .ok value middle) : (first >>= next) state = next value middle := by
  change EStateM.bind first next state = _
  simp [EStateM.bind, runs]

theorem bind_error {first : EStateM ε σ α} {next : α → EStateM ε σ β} {state middle : σ}
    {exception : ε} (runs : first state = .error exception middle) :
    (first >>= next) state = .error exception middle := by
  change EStateM.bind first next state = _
  simp [EStateM.bind, runs]

/-- The same value or the same exception, with states that are related. -/
inductive SameResult (R : σ → τ → Prop) : EStateM.Result ε σ α → EStateM.Result ε τ α → Prop
  | ok (value : α) {state : σ} {state' : τ} : R state state' →
      SameResult R (.ok value state) (.ok value state')
  | error (exception : ε) {state : σ} {state' : τ} : R state state' →
      SameResult R (.error exception state) (.error exception state')

theorem SameResult.of_ok {R : σ → τ → Prop} {result : EStateM.Result ε σ α} {value : α}
    {state' : τ} (same : SameResult R result (.ok value state')) :
    ∃ state, result = .ok value state ∧ R state state' := by
  cases same with
  | ok _ related => exact ⟨_, rfl, related⟩

theorem SameResult.of_error {R : σ → τ → Prop} {result : EStateM.Result ε σ α} {exception : ε}
    {state' : τ} (same : SameResult R result (.error exception state')) :
    ∃ state, result = .error exception state ∧ R state state' := by
  cases same with
  | error _ related => exact ⟨_, rfl, related⟩

theorem SameResult.mono {R R' : σ → τ → Prop} {result : EStateM.Result ε σ α}
    {result' : EStateM.Result ε τ α} (same : SameResult R result result')
    (weaken : ∀ state state', R state state' → R' state state') : SameResult R' result result' := by
  cases same with
  | ok value related => exact .ok value (weaken _ _ related)
  | error exception related => exact .error exception (weaken _ _ related)

/-- Sequencing, when the first programs lead to states that are related more closely. -/
theorem SameResult.bind {R R' : σ → τ → Prop} {first : EStateM ε σ α} {first' : EStateM ε τ α}
    {next : α → EStateM ε σ β} {next' : α → EStateM ε τ β} {state : σ} {state' : τ}
    (same : SameResult R' (first state) (first' state'))
    (weaken : ∀ state state', R' state state' → R state state')
    (nexts : ∀ value state state', R' state state' →
      SameResult R (next value state) (next' value state')) :
    SameResult R ((first >>= next) state) ((first' >>= next') state') := by
  change SameResult R (EStateM.bind first next state) (EStateM.bind first' next' state')
  unfold EStateM.bind
  revert same
  cases first state <;> cases first' state' <;> intro same <;> cases same
  case ok.ok.ok middle => exact nexts _ _ _ middle
  case error.error.error middle => exact .error _ (weaken _ _ middle)

/-- Related states lead to the same outcome and to related states. -/
def stateRelation (R : σ → τ → Prop) : MonadRelation (EStateM ε σ) (EStateM ε τ) where
  Related program program' :=
    ∀ state state', R state state' → SameResult R (program state) (program' state')
  pure value _ _ related := .ok value related
  bind firsts nexts state state' related :=
    (firsts state state' related).bind (fun _ _ related => related) nexts

theorem stateRelation_throw (R : σ → τ → Prop) (exception : ε) :
    (stateRelation R).Related (throw exception : EStateM ε σ α) (throw exception) :=
  fun _ _ related => .error exception related

/-- The value or the exception, and the state. -/
def outcome : EStateM.Result ε σ α → Except ε α × σ
  | .ok value state => (.ok value, state)
  | .error exception state => (.error exception, state)

theorem SameResult.outcome_eq {R : σ → τ → Prop} {result : EStateM.Result ε σ α}
    {result' : EStateM.Result ε τ α} (same : SameResult R result result') :
    (outcome result).1 = (outcome result').1 ∧ R (outcome result).2 (outcome result').2 := by
  cases same with
  | ok value related => exact ⟨rfl, related⟩
  | error exception related => exact ⟨rfl, related⟩

/-- What a caller sees that makes some calls one after another and catches what they throw. -/
def outcomes (call : β → EStateM ε σ α) : List β → σ → List (Except ε α) × σ
  | [], state => ([], state)
  | first :: rest, state =>
      ((outcome (call first state)).1 :: (outcomes call rest (outcome (call first state)).2).1,
        (outcomes call rest (outcome (call first state)).2).2)

/-- Related calls have the same outcomes and lead to related states. -/
theorem outcomes_related {R : σ → τ → Prop} {call : β → EStateM ε σ α} {call' : β → EStateM ε τ α}
    {inputs : List β}
    (related : ∀ input ∈ inputs, (stateRelation R).Related (call input) (call' input))
    {state : σ} {state' : τ} (start : R state state') :
    (outcomes call inputs state).1 = (outcomes call' inputs state').1 ∧
      R (outcomes call inputs state).2 (outcomes call' inputs state').2 := by
  induction inputs generalizing state state' with
  | nil => exact ⟨rfl, start⟩
  | cons input rest ih =>
      rcases (related input (List.mem_cons_self ..) state state' start).outcome_eq with
        ⟨same, next⟩
      rcases ih (fun input member => related input (List.mem_cons_of_mem _ member)) next with
        ⟨later, final⟩
      exact ⟨by simp only [outcomes, same, later], final⟩

/-- What every call keeps, a run keeps, and what holds of every outcome holds of all. -/
theorem outcomes_invariant {holds : σ → Prop} {allowed : β → Except ε α → Prop}
    {call : β → EStateM ε σ α} {inputs : List β}
    (kept : ∀ input ∈ inputs, ∀ state, holds state →
      holds (outcome (call input state)).2 ∧ allowed input (outcome (call input state)).1)
    {state : σ} (start : holds state) :
    holds (outcomes call inputs state).2 ∧
      List.Forall₂ allowed inputs (outcomes call inputs state).1 := by
  induction inputs generalizing state with
  | nil => exact ⟨start, .nil⟩
  | cons input rest ih =>
      rcases kept input (List.mem_cons_self ..) state start with ⟨next, first⟩
      rcases ih (fun input member => kept input (List.mem_cons_of_mem _ member)) next with
        ⟨final, later⟩
      exact ⟨final, .cons first later⟩

theorem outcomes_append (call : β → EStateM ε σ α) (first rest : List β) (state : σ) :
    (outcomes call (first ++ rest) state).2 =
      (outcomes call rest (outcomes call first state).2).2 := by
  induction first generalizing state with
  | nil => rfl
  | cons input first ih => exact ih _

end Throwing

end MrsOptimization
