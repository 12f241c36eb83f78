import MrsOptimization.Heuristic.OperatingCost

/-!
# The even-up-down operating cost calculator

`EvenUpDownOpCostCalculator.calcOpCosts` first gives the whole work of every
mission to the agent that does it cheapest. Then, round after round, it takes
one step of time from the most expensive cell of a most loaded agent, and hands
steps out to other agents until the work is made up for. A round in which no
agent can take a step is abandoned and ends the calculation.

The loops have no counter, so both run on fuel. `Outcome.rounds` and
`Round.given` record the run; the code keeps no such record.
-/

namespace MrsOptimization

/-- What ends a calculation without a result. -/
inductive Failure where
  | nullPointer
  | numberFormat
  | outOfFuel
  deriving DecidableEq

theorem bind_eq_ok {ε α β : Type} {first : Except ε α} {next : α → Except ε β} {result : β} :
    first >>= next = .ok result ↔ ∃ middle, first = .ok middle ∧ next middle = .ok result := by
  cases first with
  | error failure => simp [bind, Except.bind]
  | ok middle => simp [bind, Except.bind]

namespace EvenUpDownOpCostCalculator

open AverageOpCostCalculator (performance energy)

/-- One round: the matrix before it, the cell it decreases, the agents that got a step
in its course, and the matrix after it. It is abandoned unless it has `changed`. -/
structure Round (A Miss K : Type) where
  before : AgentMissionMatrix A Miss K
  agent : A
  mission : Miss
  given : List A
  changed : Bool
  after : AgentMissionMatrix A Miss K

/-- The variables of the loop that hands out steps. -/
structure Handout (A Miss K : Type) where
  timeMatrix : AgentMissionMatrix A Miss K
  deltaWork : K
  changed : Bool
  given : List A

structure Outcome (A Miss K : Type) where
  result : K
  timeMatrix : AgentMissionMatrix A Miss K
  rounds : List (Round A Miss K)

section Code

variable {A Comp Miss K : Type} [DecidableEq A] [DecidableEq Miss] [Field K] [LinearOrder K]
  [FloorRing K] (project : Project Comp Miss K) (scale : ℕ) (api : AgentApi Id A Miss K)

def valueStep : K :=
  roundUp scale project.config.nearZero

/-- The operating energy of an agent for a unit of work. -/
def costPerWork (mission : Miss) (agent : A) : ExactDouble K :=
  ExactDouble.divide (energy api agent) (performance api mission agent)

/-- `minCost > currCost`, from near infinity on. -/
def cheapest (mission : Miss) (agents : List A) : Option A :=
  (pickBest (fun minCost currCost => ExactDouble.less currCost minCost)
    (costPerWork api mission) agents (none, .finite project.config.nearInfinity)).1

/-- The first loop of `calcOpCosts`. -/
def fillWork (mrs : List A) :
    List Miss → AgentMissionMatrix A Miss K → Except Failure (AgentMissionMatrix A Miss K)
  | [], timeMatrix => .ok timeMatrix
  | mis :: rest, timeMatrix =>
      match cheapest project api mis mrs with
      | none => .error .nullPointer
      | some minAgent =>
          match ExactDouble.divide (project.mission mis).getAmountOfWork
              (performance api mis minAgent) with
          | .finite time =>
              fillWork mrs rest (timeMatrix.setValue minAgent mis (roundUp scale time))
          | _ => .error .numberFormat

/-- The most loaded agents with their most expensive missions, and their load. -/
def maxCells (timeMatrix : AgentMissionMatrix A Miss K) : List (A × Option Miss) × K :=
  timeMatrix.agents.foldl (fun (maxCells, maxValue) agent =>
    let currValue := timeMatrix.getSumAgent agent
    let (maxCells, maxValue) :=
      if maxValue < currValue then ([], currValue) else (maxCells, maxValue)
    if maxValue = currValue then
      (maxCells ++ [(agent, timeMatrix.getMaxCost (performance api) (energy api) agent)], maxValue)
    else
      (maxCells, maxValue)) ([], 0)

/-- The pairs, unless a mission is missing. -/
def dereference : List (A × Option Miss) → Option (List (A × Miss))
  | [] => some []
  | (_, none) :: _ => none
  | (agent, some mission) :: rest => (dereference rest).map ((agent, mission) :: ·)

/-- The most expensive cell of the most loaded agents. -/
def maxPair (timeMatrix : AgentMissionMatrix A Miss K) : Except Failure (A × Miss) :=
  match dereference (maxCells api timeMatrix).1 with
  | none => .error .nullPointer
  | some pairs =>
      match (pickBest ExactDouble.less (fun pair => costPerWork api pair.2 pair.1) pairs
          (none, .finite 0)).1 with
      | none => .error .nullPointer
      | some pair => .ok pair

/-- The agent that gets the next step. -/
def helper (maxValue : K) (agent : A) (mission : Miss)
    (timeMatrix : AgentMissionMatrix A Miss K) : Option A :=
  cheapest project api mission (timeMatrix.agents.filter fun other =>
    other ≠ agent ∧ 0 < performance api mission other ∧
      timeMatrix.getSumAgent other + valueStep project scale ≤ maxValue - valueStep project scale)

/-- The work that a step of the selected cell is worth, less what is done in excess. -/
def deltaWork (agent : A) (mission : Miss) (timeMatrix : AgentMissionMatrix A Miss K) : K :=
  performance api mission agent -
    (timeMatrix.getWorkDone (performance api) mission - (project.mission mission).getAmountOfWork)

/-- `changed` is set beforehand if the selected cell can be decreased for free. -/
def startHandout (agent : A) (mission : Miss) (timeMatrix : AgentMissionMatrix A Miss K) :
    Handout A Miss K where
  timeMatrix := timeMatrix
  deltaWork := deltaWork project api agent mission timeMatrix
  changed := decide (deltaWork project api agent mission timeMatrix = 0)
  given := []

/-- `minAgent` works one step longer. -/
def giveStep (mission : Miss) (minAgent : A) (state : Handout A Miss K) :
    Handout A Miss K where
  timeMatrix := state.timeMatrix.incValue minAgent mission (valueStep project scale)
  deltaWork := state.deltaWork - performance api mission minAgent
  changed := true
  given := state.given ++ [minAgent]

/-- The loop `while (deltaWork > 0)`. -/
def handOut (maxValue : K) (agent : A) (mission : Miss) :
    ℕ → Handout A Miss K → Except Failure (Handout A Miss K)
  | 0, _ => .error .outOfFuel
  | fuel + 1, state =>
      if 0 < state.deltaWork then
        match helper project scale api maxValue agent mission state.timeMatrix with
        | none => .ok { state with changed := false }
        | some minAgent =>
            handOut maxValue agent mission fuel
              (giveStep project scale api mission minAgent state)
      else .ok state

/-- The body of the outer loop. -/
def round (fuel : ℕ) (timeMatrix : AgentMissionMatrix A Miss K) :
    Except Failure (Round A Miss K) := do
  let (agent, mission) ← maxPair api timeMatrix
  let state ← handOut project scale api (maxCells api timeMatrix).2 agent mission fuel
    (startHandout project api agent mission timeMatrix)
  return {
    before := timeMatrix
    agent := agent
    mission := mission
    given := state.given
    changed := state.changed
    after :=
      if state.changed then
        state.timeMatrix.incValue agent mission (-valueStep project scale)
      else state.timeMatrix }

variable [MathPow K]

def costs (Qinv : K) (timeMatrix : AgentMissionMatrix A Miss K) : K :=
  (timeMatrix.getCosts project.costModel api.getOperatingEnergy Qinv).run

/-- The loop `do ... while (changed)`. -/
def improve (Qinv : K) :
    ℕ → K → AgentMissionMatrix A Miss K → Except Failure (Outcome A Miss K)
  | 0, _, _ => .error .outOfFuel
  | fuel + 1, result, timeMatrix => do
      let performed ← round project scale api fuel timeMatrix
      if performed.changed then
        let outcome ← improve Qinv fuel (costs project api Qinv performed.after) performed.after
        return { outcome with rounds := performed :: outcome.rounds }
      else
        return ⟨result, performed.after, [performed]⟩

def calcOpCosts (fuel : ℕ) (mrs : List A) (Qinv : K) : Except Failure (Outcome A Miss K) := do
  let timeMatrix ← fillWork project scale api mrs project.missions
    (AgentMissionMatrix.new mrs project.missions)
  improve project scale api Qinv fuel 0 timeMatrix

end Code

section Specifications

variable {A Comp Miss K : Type} [Field K] [LinearOrder K] {project : Project Comp Miss K}
  {scale : ℕ} {api : AgentApi Id A Miss K} {agent : A} {mission : Miss}

theorem cheapest_some {agents : List A}
    (found : cheapest project api mission agents = some agent) :
    agent ∈ agents ∧
      ExactDouble.less (costPerWork api mission agent) (.finite project.config.nearInfinity) := by
  apply pickBest_some _ found
  intro x y z first second
  exact ExactDouble.less_trans _ _ _ second first

theorem dereference_eq_some {cells : List (A × Option Miss)} {pairs : List (A × Miss)} :
    dereference cells = some pairs ↔ cells = pairs.map fun pair => (pair.1, some pair.2) := by
  induction cells generalizing pairs with
  | nil => cases pairs <;> simp [dereference]
  | cons cell rest ih =>
      rcases cell with ⟨agent, _ | mission⟩
      · cases pairs <;> simp [dereference]
      · cases pairs with
        | nil => simp [dereference]
        | cons pair pairs =>
            rcases pair with ⟨otherAgent, otherMission⟩
            simp only [dereference, Option.map_eq_some_iff, ih, List.cons.injEq, Prod.mk.injEq,
              List.map_cons, Option.some.injEq]
            constructor
            · rintro ⟨_, rfl, ⟨rfl, rfl⟩, rfl⟩
              simp
            · rintro ⟨⟨rfl, rfl⟩, rfl⟩
              simp

theorem exists_dereference {cells : List (A × Option Miss)}
    (present : ∀ cell ∈ cells, ∃ mission, cell.2 = some mission) :
    ∃ pairs, dereference cells = some pairs := by
  induction cells with
  | nil => exact ⟨[], rfl⟩
  | cons cell rest ih =>
      rcases cell with ⟨agent, maxMission⟩
      rcases present _ List.mem_cons_self with ⟨mission, rfl⟩
      rcases ih fun other otherMem => present other (List.mem_cons_of_mem _ otherMem) with
        ⟨pairs, found⟩
      exact ⟨(agent, mission) :: pairs, by simp [dereference, found]⟩

variable [DecidableEq A] {timeMatrix : AgentMissionMatrix A Miss K}

/-- The largest agent load. -/
def largestLoad (timeMatrix : AgentMissionMatrix A Miss K) : K :=
  timeMatrix.agents.foldl (fun maxValue agent => max (timeMatrix.getSumAgent agent) maxValue) 0

theorem largestLoad_nonneg : 0 ≤ largestLoad timeMatrix := by
  rw [largestLoad, foldl_max_eq_foldr]
  exact init_le_foldr_max _ _

theorem load_le_largestLoad (agentMem : agent ∈ timeMatrix.agents) :
    timeMatrix.getSumAgent agent ≤ largestLoad timeMatrix := by
  rw [largestLoad, foldl_max_eq_foldr]
  exact le_foldr_max (List.mem_map_of_mem agentMem) _

theorem largestLoad_le {bound : K} (nonneg : 0 ≤ bound)
    (loads : ∀ agent ∈ timeMatrix.agents, timeMatrix.getSumAgent agent ≤ bound) :
    largestLoad timeMatrix ≤ bound := by
  rw [largestLoad, foldl_max_eq_foldr]
  apply foldr_max_le nonneg
  simpa using loads

theorem helper_some [FloorRing K] {maxValue : K} {other : A}
    (found : helper project scale api maxValue agent mission timeMatrix = some other) :
    other ∈ timeMatrix.agents ∧ other ≠ agent ∧ 0 < performance api mission other ∧
      timeMatrix.getSumAgent other + valueStep project scale ≤
        maxValue - valueStep project scale := by
  have eligible := (cheapest_some found).1
  simpa using eligible

variable [DecidableEq Miss]

/-- What the loop over the agents has found. -/
structure MaxCellsSpec (api : AgentApi Id A Miss K) (timeMatrix : AgentMissionMatrix A Miss K)
    (agents : List A) (found : List (A × Option Miss) × K) : Prop where
  value : found.2 =
    agents.foldl (fun maxValue agent => max (timeMatrix.getSumAgent agent) maxValue) 0
  nonneg : 0 ≤ found.2
  load_le : ∀ agent ∈ agents, timeMatrix.getSumAgent agent ≤ found.2
  cells : ∀ cell, cell ∈ found.1 ↔ cell.1 ∈ agents ∧ timeMatrix.getSumAgent cell.1 = found.2 ∧
    cell.2 = timeMatrix.getMaxCost (performance api) (energy api) cell.1

section NextAgent

variable {agents : List A} {found : List (A × Option Miss) × K}

/-- An agent with a larger load displaces the others. -/
theorem MaxCellsSpec.larger (spec : MaxCellsSpec api timeMatrix agents found)
    (larger : found.2 < timeMatrix.getSumAgent agent) :
    MaxCellsSpec api timeMatrix (agents ++ [agent])
      ([(agent, timeMatrix.getMaxCost (performance api) (energy api) agent)],
        timeMatrix.getSumAgent agent) := by
  constructor
  · simp [← spec.value, larger.le]
  · exact spec.nonneg.trans larger.le
  · intro other otherMem
    rcases List.mem_append.mp otherMem with older | newest
    · exact (spec.load_le other older).trans larger.le
    · rw [List.mem_singleton.mp newest]
  · rintro ⟨other, maxMission⟩
    simp only [List.mem_singleton, List.mem_append, Prod.mk.injEq]
    constructor
    · rintro ⟨rfl, rfl⟩
      simp
    · rintro ⟨older | rfl, atMax, rfl⟩
      · exact absurd atMax ((spec.load_le other older).trans_lt larger).ne
      · simp

theorem MaxCellsSpec.load_le_append (spec : MaxCellsSpec api timeMatrix agents found)
    (le : timeMatrix.getSumAgent agent ≤ found.2) :
    ∀ other ∈ agents ++ [agent], timeMatrix.getSumAgent other ≤ found.2 := by
  intro other otherMem
  rcases List.mem_append.mp otherMem with older | newest
  · exact spec.load_le other older
  · rwa [List.mem_singleton.mp newest]

/-- An agent with the same load joins the others. -/
theorem MaxCellsSpec.same (spec : MaxCellsSpec api timeMatrix agents found)
    (same : found.2 = timeMatrix.getSumAgent agent) :
    MaxCellsSpec api timeMatrix (agents ++ [agent])
      (found.1 ++ [(agent, timeMatrix.getMaxCost (performance api) (energy api) agent)],
        found.2) := by
  constructor
  · simp [← spec.value, same]
  · exact spec.nonneg
  · exact spec.load_le_append same.ge
  · rintro ⟨other, maxMission⟩
    simp only [List.mem_append, spec.cells, List.mem_singleton, Prod.mk.injEq]
    constructor
    · rintro (⟨older, atMax, rfl⟩ | ⟨rfl, rfl⟩)
      · exact ⟨Or.inl older, atMax, rfl⟩
      · exact ⟨Or.inr rfl, same.symm, rfl⟩
    · rintro ⟨older | rfl, atMax, rfl⟩
      · exact Or.inl ⟨older, atMax, rfl⟩
      · exact Or.inr ⟨rfl, rfl⟩

/-- An agent with a smaller load changes nothing. -/
theorem MaxCellsSpec.smaller (spec : MaxCellsSpec api timeMatrix agents found)
    (smaller : timeMatrix.getSumAgent agent < found.2) :
    MaxCellsSpec api timeMatrix (agents ++ [agent]) found := by
  constructor
  · simp [← spec.value, smaller.le]
  · exact spec.nonneg
  · exact spec.load_le_append smaller.le
  · rintro ⟨other, maxMission⟩
    simp only [spec.cells, List.mem_append, List.mem_singleton]
    constructor
    · rintro ⟨older, found⟩
      exact ⟨Or.inl older, found⟩
    · rintro ⟨older | rfl, atMax, rfl⟩
      · exact ⟨older, atMax, rfl⟩
      · exact absurd atMax smaller.ne

end NextAgent

theorem maxCells_spec (api : AgentApi Id A Miss K) (timeMatrix : AgentMissionMatrix A Miss K) :
    MaxCellsSpec api timeMatrix timeMatrix.agents (maxCells api timeMatrix) := by
  rw [maxCells]
  generalize timeMatrix.agents = agents
  induction agents using List.reverseRecOn with
  | nil => constructor <;> simp
  | append_singleton agents agent ih =>
      rw [List.foldl_append, List.foldl_cons, List.foldl_nil]
      generalize agents.foldl _ _ = found at ih
      rcases lt_trichotomy found.2 (timeMatrix.getSumAgent agent) with larger | same | smaller
      · simp only [if_pos larger, if_true, List.nil_append]
        exact ih.larger larger
      · simp only [if_neg same.not_lt, if_pos same]
        exact ih.same same
      · simp only [if_neg smaller.not_gt, if_neg smaller.ne']
        exact ih.smaller smaller

theorem maxPair_ok (found : maxPair api timeMatrix = .ok (agent, mission)) :
    agent ∈ timeMatrix.agents ∧ timeMatrix.getSumAgent agent = (maxCells api timeMatrix).2 ∧
      timeMatrix.getMaxCost (performance api) (energy api) agent = some mission := by
  rw [maxPair] at found
  split at found
  · cases found
  · rename_i pairs deref
    split at found
    · cases found
    · rename_i pair picked
      cases found
      have pairMem := (pickBest_some ExactDouble.less_trans picked).1
      have cellMem : (agent, some mission) ∈ (maxCells api timeMatrix).1 := by
        rw [dereference_eq_some.mp deref]
        exact List.mem_map.mpr ⟨(agent, mission), pairMem, rfl⟩
      rcases ((maxCells_spec api timeMatrix).cells _).mp cellMem with ⟨agentMem, atMax, found⟩
      exact ⟨agentMem, atMax, found.symm⟩

theorem maxPair_error {failure : Failure} (failed : maxPair api timeMatrix = .error failure) :
    failure = .nullPointer := by
  rw [maxPair] at failed
  split at failed
  · exact (Except.error.inj failed).symm
  · split at failed
    · exact (Except.error.inj failed).symm
    · cases failed

variable [FloorRing K]

/-- What every step handed out preserves holds at the end of the loop, which has made up for
the work or has found no helper. -/
theorem handOut_invariant (holds : Handout A Miss K → Prop) {maxValue : K}
    (step : ∀ (state : Handout A Miss K) (other : A), holds state → 0 < state.deltaWork →
      helper project scale api maxValue agent mission state.timeMatrix = some other →
      holds (giveStep project scale api mission other state))
    {fuel : ℕ} {state final : Handout A Miss K} (start : holds state)
    (run : handOut project scale api maxValue agent mission fuel state = .ok final) :
    ∃ last, holds last ∧
      ((last.deltaWork ≤ 0 ∧ final = last) ∨
        (0 < last.deltaWork ∧
          helper project scale api maxValue agent mission last.timeMatrix = none ∧
          final = { last with changed := false })) := by
  induction fuel generalizing state with
  | zero => cases run
  | succ fuel ih =>
      rw [handOut] at run
      by_cases pending : 0 < state.deltaWork
      · rw [if_pos pending] at run
        split at run
        · rename_i missing
          exact ⟨state, start, Or.inr ⟨pending, missing, (Except.ok.inj run).symm⟩⟩
        · rename_i other found
          exact ih (step state other start pending found) run
      · rw [if_neg pending] at run
        exact ⟨state, start, Or.inl ⟨not_lt.mp pending, (Except.ok.inj run).symm⟩⟩

/-- A completed round, taken apart. -/
theorem round_ok {fuel : ℕ} {performed : Round A Miss K}
    (run : round project scale api fuel timeMatrix = .ok performed) :
    performed.before = timeMatrix ∧
      maxPair api timeMatrix = .ok (performed.agent, performed.mission) ∧
      ∃ final, handOut project scale api (maxCells api timeMatrix).2 performed.agent
          performed.mission fuel
          (startHandout project api performed.agent performed.mission timeMatrix) = .ok final ∧
        performed.given = final.given ∧ performed.changed = final.changed ∧
        performed.after = if final.changed then
            final.timeMatrix.incValue performed.agent performed.mission
              (-valueStep project scale)
          else final.timeMatrix := by
  rw [round] at run
  rcases bind_eq_ok.mp run with ⟨⟨agent, mission⟩, pairRun, run⟩
  rcases bind_eq_ok.mp run with ⟨final, handOutRun, run⟩
  cases run
  exact ⟨rfl, pairRun, final, handOutRun, rfl, rfl, rfl⟩

end Specifications

end EvenUpDownOpCostCalculator

end MrsOptimization
