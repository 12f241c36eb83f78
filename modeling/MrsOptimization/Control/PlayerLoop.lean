import Mathlib.Data.Int.Order.Basic
import Mathlib.Data.List.Basic

/-!
# The loop of the player controllers

`AbstractPlayerCtrl.run` calls `process()` and sleeps in turn, until it finds the
stop signal. Both of its handlers interrupt the running thread again. After a
failure of `process()` the flag of the thread is therefore set for good, and every
later sleep ends at once: `PlayerCtrl.recovers_iff` says that iterations sleep after
a failure only in runs in which no iteration has to.
-/

namespace MrsOptimization

inductive ProcessOutcome where
  | returns
  | processingException
  deriving DecidableEq

/-- What an iteration meets: how `process()` ends, and whether the stop signal is sent while the
iteration lasts. The interrupt flag of the thread is taken to be after `process()` what it was
before. -/
structure PlayerTurn where
  outcome : ProcessOutcome
  stop : Bool
  deriving DecidableEq

/-- The fields of `AbstractPlayerCtrl`, and the interrupt flag of its thread. -/
structure PlayerCtrl where
  ctrlLoopDelay : ℤ
  stopSignal : Bool
  interrupted : Bool
  deriving DecidableEq

/-- How `Thread.sleep` ends. -/
inductive SleepOutcome where
  | slept
  | interruptedException
  | illegalArgument
  deriving DecidableEq

namespace PlayerCtrl

/-- A sleep that is interrupted clears the flag. -/
def sleep (ctrl : PlayerCtrl) : SleepOutcome × PlayerCtrl :=
  if ctrl.ctrlLoopDelay < 0 then (.illegalArgument, ctrl)
  else if ctrl.interrupted then (.interruptedException, { ctrl with interrupted := false })
  else (.slept, ctrl)

def interrupt (ctrl : PlayerCtrl) : PlayerCtrl :=
  { ctrl with interrupted := true }

def sendStopSignal (ctrl : PlayerCtrl) : PlayerCtrl :=
  { ctrl with stopSignal := true }

/-- The body of the loop: how long it sleeps, if it does, and the controller after it, unless an
uncaught exception ends the thread. -/
def iteration (ctrl : PlayerCtrl) (outcome : ProcessOutcome) : Option ℤ × Option PlayerCtrl :=
  match outcome with
  | .processingException => (none, some ctrl.interrupt)
  | .returns =>
      match ctrl.sleep with
      | (.slept, awake) => (some ctrl.ctrlLoopDelay, some awake)
      | (.interruptedException, awake) => (none, some awake.interrupt)
      | (.illegalArgument, _) => (none, none)

/-- The iterations that are made, each with the time that it slept. -/
def run (ctrl : PlayerCtrl) : List PlayerTurn → List (ProcessOutcome × Option ℤ)
  | [] => []
  | turn :: rest =>
      if ctrl.stopSignal then []
      else
        let (slept, after) := ctrl.iteration turn.outcome
        (turn.outcome, slept) :: match after with
          | none => []
          | some next => run (if turn.stop then next.sendStopSignal else next) rest

/-- A controller whose thread is about to start. -/
def new (ctrlLoopDelay : ℤ) (stopSignal : Bool) : PlayerCtrl where
  ctrlLoopDelay := ctrlLoopDelay
  stopSignal := stopSignal
  interrupted := false

/-- After a failed iteration, every iteration in which `process()` returns sleeps its full delay
before the next one starts. -/
def Recovers (ctrl : PlayerCtrl) (turns : List PlayerTurn) : Prop :=
  ∀ i j failed slept, i < j → (ctrl.run turns)[i]? = some (.processingException, failed) →
    (ctrl.run turns)[j]? = some (.returns, slept) → j + 1 < (ctrl.run turns).length →
      slept = some ctrl.ctrlLoopDelay

/-- No iteration has to sleep after a failure: `process()` does not return after it failed,
unless the loop is stopped by then. -/
def NeverReturnsAfterFailure (ctrl : PlayerCtrl) (turns : List PlayerTurn) : Prop :=
  ∀ i j failed returned, i < j → j + 1 < turns.length → turns[i]? = some failed →
    failed.outcome = .processingException → turns[j]? = some returned →
      returned.outcome = .returns →
        ctrl.stopSignal = true ∨ ∃ turn ∈ turns.take (j + 1), turn.stop = true

/-- Whether some iteration is interrupted from the start, by the turns before it. -/
def disturbed (ctrl : PlayerCtrl) (before : List PlayerTurn) : Bool :=
  ctrl.interrupted || before.any fun turn => turn.outcome = .processingException

def stopped (ctrl : PlayerCtrl) (before : List PlayerTurn) : Bool :=
  ctrl.stopSignal || before.any fun turn => turn.stop

variable {ctrl : PlayerCtrl}

/-- One iteration sets the flag if `process()` fails, and never clears it. -/
theorem iteration_eq (valid : 0 ≤ ctrl.ctrlLoopDelay) (outcome : ProcessOutcome) :
    ctrl.iteration outcome =
      (if outcome = .returns ∧ ctrl.interrupted = false then some ctrl.ctrlLoopDelay else none,
        some { ctrl with interrupted := ctrl.interrupted || outcome = .processingException }) := by
  have nonneg : ¬ctrl.ctrlLoopDelay < 0 := not_lt.mpr valid
  cases outcome with
  | processingException => simp [iteration, interrupt]
  | returns =>
      cases flag : ctrl.interrupted with
      | false =>
          simp [iteration, sleep, nonneg, flag]
          rw [← flag]
      | true => simp [iteration, sleep, nonneg, flag, interrupt]

theorem run_cons (valid : 0 ≤ ctrl.ctrlLoopDelay) (running : ctrl.stopSignal = false)
    (turn : PlayerTurn) (rest : List PlayerTurn) :
    ctrl.run (turn :: rest) =
      (turn.outcome, if turn.outcome = .returns ∧ ctrl.interrupted = false then
          some ctrl.ctrlLoopDelay else none) ::
        ({ ctrl with
            interrupted := ctrl.interrupted || turn.outcome = .processingException
            stopSignal := turn.stop } : PlayerCtrl).run rest := by
  rw [run, if_neg (by simp [running]), iteration_eq valid]
  cases signal : turn.stop with
  | false => simp [running]
  | true => simp [sendStopSignal]

/-- The iteration at a place is made if the loop was not stopped before, and it sleeps if no
failure came before. -/
theorem run_getElem? (valid : 0 ≤ ctrl.ctrlLoopDelay) (turns : List PlayerTurn) (j : ℕ) :
    (ctrl.run turns)[j]? =
      if ctrl.stopped (turns.take j) then none
      else turns[j]?.map fun turn =>
        (turn.outcome, if turn.outcome = .returns ∧ ctrl.disturbed (turns.take j) = false then
          some ctrl.ctrlLoopDelay else none) := by
  induction turns generalizing ctrl j with
  | nil => simp [run]
  | cons turn rest ih =>
      cases halted : ctrl.stopSignal with
      | true => simp [run, halted, stopped]
      | false =>
          rw [run_cons valid halted]
          cases j with
          | zero => simp [stopped, disturbed, halted]
          | succ j =>
              rw [List.getElem?_cons_succ]
              apply (ih (by exact valid) j).trans
              simp [stopped, disturbed, halted, Bool.or_assoc]

/-- A negative delay ends the thread as soon as `process()` returns. -/
theorem run_of_negative (negative : ctrl.ctrlLoopDelay < 0) {turns : List PlayerTurn} {j : ℕ}
    {slept : Option ℤ} (made : (ctrl.run turns)[j]? = some (.returns, slept)) :
    (ctrl.run turns).length = j + 1 := by
  induction turns generalizing ctrl j with
  | nil => simp [run] at made
  | cons turn rest ih =>
      cases halted : ctrl.stopSignal with
      | true => simp [run, halted] at made
      | false =>
          cases outcome : turn.outcome with
          | returns =>
              have last : ctrl.run (turn :: rest) = [(.returns, none)] := by
                simp [run, halted, outcome, iteration, sleep, negative]
              rw [last] at made ⊢
              have first : j < 1 := (List.getElem?_eq_some_iff.mp made).1
              rw [List.length_singleton]
              omega
          | processingException =>
              cases j with
              | zero => simp [run, halted, outcome, iteration] at made
              | succ j =>
                  simp only [run, halted, outcome, iteration, Bool.false_eq_true, if_false,
                    List.getElem?_cons_succ, List.length_cons] at made ⊢
                  rw [ih _ made]
                  split
                  · exact negative
                  · exact negative

theorem lt_length_run_iff (valid : 0 ≤ ctrl.ctrlLoopDelay) (turns : List PlayerTurn) (j : ℕ) :
    j < (ctrl.run turns).length ↔ ctrl.stopped (turns.take j) = false ∧ j < turns.length := by
  rw [← Nat.not_le, ← List.getElem?_eq_none_iff, run_getElem? valid]
  cases halted : ctrl.stopped (turns.take j) with
  | true => simp
  | false => simp

theorem stopped_eq_false {before : List PlayerTurn} :
    ctrl.stopped before = false ↔
      ¬(ctrl.stopSignal = true ∨ ∃ turn ∈ before, turn.stop = true) := by
  simp [stopped]

/-- The stop signal is not withdrawn. -/
theorem stopped_take_of_le {turns : List PlayerTurn} {i j : ℕ} (earlier : i ≤ j)
    (running : ctrl.stopped (turns.take j) = false) : ctrl.stopped (turns.take i) = false := by
  rw [stopped_eq_false] at running ⊢
  rintro (signal | ⟨turn, turnMem, signal⟩)
  · exact running (Or.inl signal)
  · exact running (Or.inr ⟨turn, (List.take_sublist_take_left earlier).subset turnMem, signal⟩)

/-- An iteration whose `process()` returns after a failure does not sleep. -/
theorem run_after_failure (valid : 0 ≤ ctrl.ctrlLoopDelay) {turns : List PlayerTurn} {i j : ℕ}
    (before : i < j) (running : ctrl.stopped (turns.take j) = false)
    {failed returned : PlayerTurn} (failedAt : turns[i]? = some failed)
    (failing : failed.outcome = .processingException) (returnedAt : turns[j]? = some returned) :
    (ctrl.run turns)[j]? = some (returned.outcome, none) := by
  have failedMem : failed ∈ turns.take j := by
    apply List.mem_of_getElem? (i := i)
    rw [List.getElem?_take_of_lt before, failedAt]
  have flag : ctrl.disturbed (turns.take j) = true := by
    rw [disturbed, Bool.or_eq_true, List.any_eq_true]
    exact Or.inr ⟨failed, failedMem, by simpa using failing⟩
  simp [run_getElem? valid, running, returnedAt, flag]

theorem exists_turn (valid : 0 ≤ ctrl.ctrlLoopDelay) {turns : List PlayerTurn} {j : ℕ}
    {outcome : ProcessOutcome} {slept : Option ℤ}
    (made : (ctrl.run turns)[j]? = some (outcome, slept)) :
    ∃ turn, turns[j]? = some turn ∧ turn.outcome = outcome := by
  rw [run_getElem? valid] at made
  rcases Option.ite_none_left_eq_some.mp made with ⟨-, mapped⟩
  rcases Option.map_eq_some_iff.mp mapped with ⟨turn, turnAt, equal⟩
  exact ⟨turn, turnAt, congrArg Prod.fst equal⟩

/-- The loop recovers from failures if and only if it never has to, or a negative delay ends it.
-/
theorem recovers_iff (ctrlLoopDelay : ℤ) (stopSignal : Bool) (turns : List PlayerTurn) :
    (new ctrlLoopDelay stopSignal).Recovers turns ↔
      ctrlLoopDelay < 0 ∨ (new ctrlLoopDelay stopSignal).NeverReturnsAfterFailure turns := by
  by_cases negative : ctrlLoopDelay < 0
  · simp only [negative, true_or, iff_true]
    intro i j failed slept _ _ made goesOn
    rw [run_of_negative negative made] at goesOn
    omega
  · have valid : 0 ≤ (new ctrlLoopDelay stopSignal).ctrlLoopDelay := not_lt.mp negative
    simp only [negative, false_or]
    constructor
    · intro recovers i j failed returned before inside failedAt failing returnedAt returning
      by_contra signal
      have running := stopped_eq_false.mpr signal
      have madeFailed : ((new ctrlLoopDelay stopSignal).run turns)[i]? =
          some (.processingException, none) := by
        simp [run_getElem? valid, stopped_take_of_le (by omega : i ≤ j + 1) running, failedAt,
          failing]
      have madeReturned := run_after_failure valid before
        (stopped_take_of_le (Nat.le_succ j) running) failedAt failing returnedAt
      rw [returning] at madeReturned
      have goesOn := (lt_length_run_iff valid turns (j + 1)).mpr ⟨running, inside⟩
      cases recovers i j none none before madeFailed madeReturned goesOn
    · intro never i j failed slept before madeFailed madeReturned goesOn
      rcases (lt_length_run_iff valid turns (j + 1)).mp goesOn with ⟨running, inside⟩
      rcases exists_turn valid madeFailed with ⟨failedTurn, failedAt, failing⟩
      rcases exists_turn valid madeReturned with ⟨returnedTurn, returnedAt, returning⟩
      exact absurd (never i j failedTurn returnedTurn before inside failedAt failing returnedAt
        returning) (stopped_eq_false.mp running)

/-- After one failure no iteration sleeps any more. -/
theorem not_recovers_default :
    let turns : List PlayerTurn :=
      [⟨.returns, false⟩, ⟨.processingException, false⟩, ⟨.returns, false⟩, ⟨.returns, false⟩]
    (new 50 false).run turns = [(.returns, some 50), (.processingException, none),
        (.returns, none), (.returns, none)] ∧
      ¬(new 50 false).Recovers turns := by
  refine ⟨by decide, fun recovers => ?_⟩
  have slept := recovers 1 2 none none (by decide) (by decide) (by decide) (by decide)
  cases slept

end PlayerCtrl

end MrsOptimization
