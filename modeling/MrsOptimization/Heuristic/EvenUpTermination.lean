import MrsOptimization.Heuristic.EvenUpInvariant
import Mathlib.Algebra.Order.Floor.Semiring

/-!
# Termination of the even-up-down calculator

The loop that hands out steps ends because the balance decreases by at least the
smallest positive performance. The rounds end because each improving one takes a
step from a most loaded agent while the agents that get steps stay below it: with
the load of every agent counted in steps, the sum of the powers
`(number of agents + 1) ^ steps` decreases.

A project without missions has no cell to decrease, and the first round
dereferences a missing mission. Under the assumptions of `Regular` and `Workable`
this is the only way to fail (`calcOpCosts_returns_iff`).
-/

namespace MrsOptimization

namespace EvenUpDownOpCostCalculator

open AverageOpCostCalculator (performance energy mowersApi)

variable {A Comp Miss K : Type} [Field K] [LinearOrder K] [FloorRing K]
  [DecidableEq A] [DecidableEq Miss] {project : Project Comp Miss K} {scale : ℕ}
  {api : AgentApi Id A Miss K} {timeMatrix : AgentMissionMatrix A Miss K}
  {agent : A} {mission : Miss}

section Fuel

theorem handOut_mono {maxValue : K} {fuel larger : ℕ} (le : fuel ≤ larger)
    {state final : Handout A Miss K}
    (run : handOut project scale api maxValue agent mission fuel state = .ok final) :
    handOut project scale api maxValue agent mission larger state = .ok final := by
  induction fuel generalizing larger state with
  | zero => cases run
  | succ fuel ih =>
      rcases larger with _ | larger
      · simp at le
      · rw [handOut] at run ⊢
        by_cases pending : 0 < state.deltaWork
        · rw [if_pos pending] at run ⊢
          cases found : helper project scale api maxValue agent mission state.timeMatrix with
          | none =>
              rw [found] at run
              exact run
          | some other =>
              rw [found] at run
              exact ih (Nat.le_of_succ_le_succ le) run
        · rw [if_neg pending] at run ⊢
          exact run

theorem round_mono {fuel larger : ℕ} (le : fuel ≤ larger) {performed : Round A Miss K}
    (run : round project scale api fuel timeMatrix = .ok performed) :
    round project scale api larger timeMatrix = .ok performed := by
  rw [round] at run ⊢
  rcases bind_eq_ok.mp run with ⟨pair, pairRun, rest⟩
  rcases bind_eq_ok.mp rest with ⟨final, handOutRun, result⟩
  apply bind_eq_ok.mpr
  refine ⟨pair, pairRun, ?_⟩
  apply bind_eq_ok.mpr
  exact ⟨final, handOut_mono le handOutRun, result⟩

end Fuel

/-- Every mission can be performed by an agent at a cost below near infinity. -/
structure Workable (project : Project Comp Miss K) (api : AgentApi Id A Miss K)
    (mrs : List A) : Prop where
  distinct : project.missions.Nodup
  work_pos : ∀ mission ∈ project.missions, 0 < (project.mission mission).getAmountOfWork
  able : ∀ mission ∈ project.missions, ∃ agent ∈ mrs, 0 < performance api mission agent ∧
    energy api agent / performance api mission agent < project.config.nearInfinity

section Termination

variable [IsStrictOrderedRing K] {mrs : List A}

omit [DecidableEq A] [FloorRing K] in
theorem exists_least_performance (performance : A → K) (agents : List A) :
    ∃ least > 0, ∀ other ∈ agents, 0 < performance other → least ≤ performance other := by
  induction agents with
  | nil => exact ⟨1, one_pos, by simp⟩
  | cons head rest ih =>
      rcases ih with ⟨least, leastPos, bound⟩
      by_cases capable : 0 < performance head
      · refine ⟨min (performance head) least, lt_min capable leastPos, ?_⟩
        intro other otherMem positive
        rcases List.mem_cons.mp otherMem with rfl | restMem
        · exact min_le_left _ _
        · exact (min_le_right _ _).trans (bound other restMem positive)
      · refine ⟨least, leastPos, ?_⟩
        intro other otherMem positive
        rcases List.mem_cons.mp otherMem with rfl | restMem
        · exact absurd positive capable
        · exact bound other restMem positive

/-- Enough fuel for a balance that `count` helpers make up for. -/
theorem handOut_of_balance_le {least : K} {agents : List A}
    (bound : ∀ other ∈ agents, 0 < performance api mission other →
      least ≤ performance api mission other)
    (maxValue : K) (agent : A) (count : ℕ) (state : Handout A Miss K)
    (agentsEq : state.timeMatrix.agents = agents)
    (balance : state.deltaWork ≤ count * least) :
    ∃ final, handOut project scale api maxValue agent mission (count + 1) state = .ok final := by
  induction count generalizing state with
  | zero =>
      refine ⟨state, ?_⟩
      rw [handOut, if_neg]
      simpa using balance
  | succ count ih =>
      rw [handOut]
      by_cases pending : 0 < state.deltaWork
      · rw [if_pos pending]
        cases found : helper project scale api maxValue agent mission state.timeMatrix with
        | none => exact ⟨_, rfl⟩
        | some other =>
            rcases helper_some found with ⟨otherMem, -, capable, -⟩
            apply ih (giveStep project scale api mission other state) agentsEq
            have := bound other (agentsEq ▸ otherMem) capable
            push_cast at balance
            simp only [giveStep]
            linarith
      · rw [if_neg pending]
        exact ⟨state, rfl⟩

theorem handOut_terminates (project : Project Comp Miss K) (scale : ℕ)
    (api : AgentApi Id A Miss K) (maxValue : K) (agent : A) (mission : Miss)
    (state : Handout A Miss K) :
    ∃ fuel final, handOut project scale api maxValue agent mission fuel state = .ok final := by
  rcases exists_least_performance (performance api mission) state.timeMatrix.agents with
    ⟨least, leastPos, bound⟩
  have : Archimedean K := FloorRing.archimedean K
  rcases Archimedean.arch state.deltaWork leastPos with ⟨count, balance⟩
  rw [nsmul_eq_mul] at balance
  exact ⟨count + 1,
    handOut_of_balance_le bound maxValue agent count state rfl balance⟩

section Rounds

variable (regular : Regular project scale api mrs) (workable : Workable project api mrs)
  (sound : Sound project scale api mrs project.missions timeMatrix)

include regular workable sound

/-- Some agent works, since there is work. -/
theorem largestLoad_pos (nonempty : project.missions ≠ []) : 0 < largestLoad timeMatrix := by
  rcases List.exists_mem_of_ne_nil _ nonempty with ⟨mission, missionMem⟩
  have worked : 0 < timeMatrix.getWorkDone (performance api) mission :=
    (workable.work_pos mission missionMem).trans_le (sound.covered mission missionMem)
  have some : ∃ agent ∈ timeMatrix.agents, 0 < timeMatrix.getValue agent mission := by
    by_contra none
    push Not at none
    apply worked.not_ge
    have bound := List.sum_le_card_nsmul (timeMatrix.agents.map fun agent =>
      timeMatrix.getValue agent mission * performance api mission agent) 0 ?_
    · simpa [AgentMissionMatrix.getWorkDone] using bound
    · intro work workMem
      rcases List.mem_map.mp workMem with ⟨agent, agentMem, rfl⟩
      exact mul_nonpos_of_nonpos_of_nonneg (none agent agentMem)
        (regular.performance_nonneg mission missionMem agent (sound.agents_eq ▸ agentMem))
  rcases some with ⟨agent, agentMem, positive⟩
  have row : timeMatrix.getValue agent mission ≤ timeMatrix.getSumAgent agent :=
    AgentMissionMatrix.getValue_le_getSumAgent (sound.nonneg regular)
      (sound.missions_eq ▸ missionMem) agent
  exact (positive.trans_le row).trans_le (load_le_largestLoad agentMem)

omit regular in
theorem getMaxCost_of_load (regular : Regular project scale api mrs) {agent : A}
    (agentMem : agent ∈ mrs) (loaded : 0 < timeMatrix.getSumAgent agent) :
    ∃ mission, timeMatrix.getMaxCost (performance api) (energy api) agent = some mission := by
  have some : ∃ mission ∈ timeMatrix.missions, 0 < timeMatrix.getValue agent mission := by
    by_contra none
    push Not at none
    apply loaded.not_ge
    have bound := List.sum_le_card_nsmul ((List.range timeMatrix.missions.length).map
      (timeMatrix.data (timeMatrix.agents.idxOf agent))) 0 ?_
    · simpa [AgentMissionMatrix.getSumAgent] using bound
    · intro cell cellMem
      rcases List.mem_map.mp cellMem with ⟨column, columnMem, rfl⟩
      have below := List.mem_range.mp columnMem
      have index : timeMatrix.missions.idxOf timeMatrix.missions[column] = column :=
        (sound.missions_eq ▸ workable.distinct : timeMatrix.missions.Nodup).idxOf_getElem _ below
      have := none _ (List.getElem_mem below)
      rwa [AgentMissionMatrix.getValue, index] at this
  rcases some with ⟨mission, missionMem, positive⟩
  have capable := sound.capable agent agentMem mission (sound.missions_eq ▸ missionMem) positive
  cases found : timeMatrix.getMaxCost (performance api) (energy api) agent with
  | some maxMission => exact ⟨maxMission, rfl⟩
  | none =>
      exfalso
      have passed := pickBest_none found mission (by simp [missionMem, capable, positive])
      rw [ExactDouble.divide_of_ne_zero _ capable.ne'] at passed
      have := div_pos (regular.energy_pos agent agentMem) capable
      simp [this.not_ge] at passed

theorem maxPair_exists (nonempty : project.missions ≠ []) :
    ∃ pair, maxPair api timeMatrix = .ok pair := by
  have loaded := largestLoad_pos regular workable sound nonempty
  have spec := maxCells_spec api timeMatrix
  have maxValue : (maxCells api timeMatrix).2 = largestLoad timeMatrix :=
    spec.value
  have present : ∀ cell ∈ (maxCells api timeMatrix).1,
      ∃ mission, cell.2 = some mission := by
    intro cell cellMem
    rcases (spec.cells cell).mp cellMem with ⟨agentMem, atMax, maxMission⟩
    rw [maxMission]
    apply getMaxCost_of_load workable sound regular (sound.agents_eq ▸ agentMem)
    rw [atMax, maxValue]
    exact loaded
  rcases exists_dereference present with ⟨pairs, deref⟩
  have cells := dereference_eq_some.mp deref
  rw [maxPair, deref]
  dsimp only
  cases picked : (pickBest ExactDouble.less (fun pair => costPerWork api pair.2 pair.1) pairs
      (none, .finite 0)).1 with
  | some pair => exact ⟨pair, rfl⟩
  | none =>
      exfalso
      -- the agent with the largest load has a cell, and its cost is positive
      have attained := foldr_max_mem (timeMatrix.agents.map timeMatrix.getSumAgent) 0
      rw [← foldl_max_eq_foldr] at attained
      rcases attained with zero | reached
      · exact loaded.ne' zero
      · rcases List.mem_map.mp reached with ⟨agent, agentMem, load⟩
        have load' : timeMatrix.getSumAgent agent = largestLoad timeMatrix := load
        have agentMem' : agent ∈ mrs := sound.agents_eq ▸ agentMem
        rcases getMaxCost_of_load workable sound regular agentMem' (load' ▸ loaded) with
          ⟨mission, maxCost⟩
        have capable := (AgentMissionMatrix.getMaxCost_some maxCost).2.1
        have cost := div_pos (regular.energy_pos agent agentMem') capable
        have cellMem := (spec.cells (agent, some mission)).mpr
          ⟨agentMem, load'.trans maxValue.symm, maxCost.symm⟩
        rw [cells, List.mem_map] at cellMem
        rcases cellMem with ⟨⟨other, third⟩, pairMem, same⟩
        cases same
        have passed := pickBest_none picked _ pairMem
        simp only [costPerWork, ExactDouble.divide_of_ne_zero _ capable.ne',
          ExactDouble.less_finite, decide_eq_false_iff_not] at passed
        exact passed cost

theorem round_exists (nonempty : project.missions ≠ []) :
    ∃ fuel performed, round project scale api fuel timeMatrix = .ok performed := by
  rcases maxPair_exists regular workable sound nonempty with ⟨⟨agent, mission⟩, pairRun⟩
  rcases handOut_terminates project scale api (maxCells api timeMatrix).2 agent mission
    (startHandout project api agent mission timeMatrix) with ⟨fuel, final, handOutRun⟩
  refine ⟨fuel, ?_⟩
  rw [round, pairRun]
  simp only [bind, Except.bind, handOutRun]
  exact ⟨_, rfl⟩

end Rounds

omit [IsStrictOrderedRing K] in
theorem fillWork_exists (regular : Regular project scale api mrs)
    (workable : Workable project api mrs) {pending : List Miss}
    (subset : pending ⊆ project.missions) (timeMatrix : AgentMissionMatrix A Miss K) :
    ∃ filled, fillWork project scale api mrs pending timeMatrix = .ok filled := by
  induction pending generalizing timeMatrix with
  | nil => exact ⟨timeMatrix, rfl⟩
  | cons mission rest ih =>
      have missionMem := subset List.mem_cons_self
      have restSubset : rest ⊆ project.missions :=
        fun _ mem => subset (List.mem_cons_of_mem mission mem)
      rw [fillWork]
      cases found : cheapest project api mission mrs with
      | none =>
          exfalso
          rcases workable.able mission missionMem with ⟨agent, agentMem, capable, cheap⟩
          have passed := pickBest_none found agent agentMem
          simp [costPerWork, ExactDouble.divide_of_ne_zero _ capable.ne', cheap.not_ge] at passed
      | some agent =>
          have capable := regular.performance_pos missionMem found
          simp only [ExactDouble.divide_of_ne_zero _ capable.ne']
          exact ih restSubset _

section Potential

/-- The load of an agent, counted in steps. -/
def loadSteps (project : Project Comp Miss K) (scale : ℕ) (timeMatrix : AgentMissionMatrix A Miss K)
    (agent : A) : ℕ :=
  ⌊timeMatrix.getSumAgent agent / valueStep project scale⌋₊

/-- A step on a load weighs more than all agents together that are a step below it. -/
def potential (project : Project Comp Miss K) (scale : ℕ) (mrs : List A)
    (timeMatrix : AgentMissionMatrix A Miss K) : ℕ :=
  (mrs.map fun agent => (mrs.length + 1) ^ loadSteps project scale timeMatrix agent).sum

theorem potential_lt (regular : Regular project scale api mrs)
    (sound : Sound project scale api mrs project.missions timeMatrix) {fuel : ℕ}
    {performed : Round A Miss K}
    (run : round project scale api fuel timeMatrix = .ok performed)
    (changed : performed.changed = true) :
    potential project scale mrs performed.after < potential project scale mrs timeMatrix := by
  have step := regular.valueStep_pos
  have spec := round_spec step (sound.agents_eq ▸ regular.distinct) (sound.nonneg regular) run
  rcases sound.round regular run with ⟨later, loads, decreased⟩
  have agentMem : performed.agent ∈ mrs := sound.agents_eq ▸ spec.agent_mem
  have selected := decreased changed
  rw [← spec.load_eq] at loads selected
  -- a load that is a step below the largest one
  have below : ∀ load ≤ timeMatrix.getSumAgent performed.agent - valueStep project scale,
      ⌊load / valueStep project scale⌋₊ ≤
        loadSteps project scale timeMatrix performed.agent - 1 := by
    intro load le
    rw [loadSteps, ← Nat.floor_sub_one]
    apply Nat.floor_mono
    rw [div_sub_one step.ne']
    exact div_le_div_of_nonneg_right le step.le
  have positive : 0 < loadSteps project scale timeMatrix performed.agent := by
    have nonneg : 0 ≤ performed.after.getSumAgent performed.agent := by
      apply List.sum_nonneg
      intro cell cellMem
      rcases List.mem_map.mp cellMem with ⟨column, -, rfl⟩
      exact later.nonneg regular _ _
    rw [loadSteps, Nat.floor_pos, one_le_div step]
    linarith
  rcases Nat.exists_eq_add_of_lt positive with ⟨steps, stepsEq⟩
  rw [zero_add] at stepsEq
  rw [stepsEq, Nat.add_sub_cancel] at below
  have base : 0 < mrs.length + 1 := Nat.succ_pos _
  have exchange := sum_add_le_of_exchange
    (fun agent => (mrs.length + 1) ^ loadSteps project scale timeMatrix agent)
    (fun agent => (mrs.length + 1) ^ loadSteps project scale performed.after agent) agentMem
    (Nat.pow_le_pow_right base (below _ selected)) ?_
  · rw [stepsEq, pow_succ, mul_add, mul_one, mul_comm] at exchange
    have := Nat.pow_pos base (n := steps)
    simp only [potential]
    omega
  · intro agent _
    rcases loads agent with same | le
    · simp [loadSteps, same]
    · have := Nat.pow_le_pow_right base (below _ le)
      simp only [loadSteps]
      omega

end Potential

section Returns

variable [MathPow K]

theorem improve_terminates (regular : Regular project scale api mrs)
    (workable : Workable project api mrs) (nonempty : project.missions ≠ []) (Qinv : K)
    (sound : Sound project scale api mrs project.missions timeMatrix) :
    ∃ enough, ∀ fuel ≥ enough, ∀ result, ∃ outcome,
      improve project scale api Qinv fuel result timeMatrix = .ok outcome := by
  induction measure : potential project scale mrs timeMatrix using Nat.strong_induction_on
    generalizing timeMatrix with
  | _ size ih =>
      subst measure
      rcases round_exists regular workable sound nonempty with ⟨roundFuel, performed, run⟩
      cases changed : performed.changed with
      | false =>
          refine ⟨roundFuel + 1, fun fuel le result => ?_⟩
          rcases fuel with _ | fuel
          · simp at le
          · have run' := round_mono (Nat.le_of_succ_le_succ le) run
            exact ⟨_, by simp [improve, run', bind, Except.bind, changed]; rfl⟩
      | true =>
          have later := (sound.round regular run).1
          rcases ih _ (potential_lt regular sound run changed) later rfl with ⟨enough, terminates⟩
          refine ⟨max roundFuel enough + 1, fun fuel le result => ?_⟩
          rcases fuel with _ | fuel
          · simp at le
          · have le' := Nat.le_of_succ_le_succ le
            have run' := round_mono ((le_max_left _ _).trans le') run
            rcases terminates fuel ((le_max_right _ _).trans le')
              (costs project api Qinv performed.after) with ⟨outcome, rest⟩
            exact ⟨_, by simp [improve, run', bind, Except.bind, changed, rest]; rfl⟩

omit [IsStrictOrderedRing K] in
/-- Without missions the agents have no cells, and the first round fails. -/
theorem calcOpCosts_no_missions (none : project.missions = []) (fuel : ℕ) (mrs : List A)
    (Qinv : K) :
    calcOpCosts project scale api (fuel + 1) mrs Qinv = .error .nullPointer := by
  have failed : maxPair api (AgentMissionMatrix.new mrs project.missions) =
      .error .nullPointer := by
    cases run : maxPair api (AgentMissionMatrix.new mrs project.missions) with
    | error failure => rw [maxPair_error run]
    | ok pair =>
        exfalso
        have missionMem := (AgentMissionMatrix.getMaxCost_some (maxPair_ok run).2.2).1
        simp [AgentMissionMatrix.new, none] at missionMem
  rw [calcOpCosts, none, fillWork, ← none]
  simp [improve, round, failed, bind, Except.bind]

/-- Under these assumptions the calculator returns, whatever the fuel from some amount on, if
and only if there is a mission. -/
theorem calcOpCosts_returns_iff (regular : Regular project scale api mrs)
    (workable : Workable project api mrs) (Qinv : K) :
    (∃ enough, ∀ fuel ≥ enough, ∃ outcome,
        calcOpCosts project scale api fuel mrs Qinv = .ok outcome) ↔ project.missions ≠ [] := by
  constructor
  · rintro ⟨enough, terminates⟩ none
    rcases terminates (enough + 1) (Nat.le_succ _) with ⟨outcome, run⟩
    rw [calcOpCosts_no_missions none] at run
    cases run
  · intro nonempty
    rcases fillWork_exists regular workable (List.Subset.refl _)
      (AgentMissionMatrix.new mrs project.missions) with ⟨filled, fills⟩
    have sound := fillWork_sound regular (List.Subset.refl _)
      (sound_new project scale api mrs) fills
    rcases improve_terminates regular workable nonempty Qinv sound with ⟨enough, terminates⟩
    refine ⟨enough, fun fuel le => ?_⟩
    rcases terminates fuel le 0 with ⟨outcome, run⟩
    exact ⟨outcome, by simp [calcOpCosts, fills, bind, Except.bind, run]⟩

end Returns

end Termination

theorem workable_mowers {missions : List GrassMission} (distinct : missions.Nodup) :
    Workable { grassTrimmingProject 100 1 with missions := missions } mowersApi [0, 1] where
  distinct := distinct
  work_pos mission _ := by
    change 0 < ((grassTrimmingProject 100 1).mission mission).getAmountOfWork
    cases mission <;> decide +kernel
  able mission _ := by
    change ∃ agent ∈ [0, 1], 0 < performance mowersApi mission agent ∧
      energy mowersApi agent / performance mowersApi mission agent <
        (grassTrimmingProject 100 1).config.nearInfinity
    cases mission <;> decide +kernel

theorem calcOpCosts_returns_iff_mowers :
    (∃ enough, ∀ fuel ≥ enough, ∃ outcome,
        calcOpCosts (grassTrimmingProject 100 1) 0 mowersApi fuel [0, 1] 5000 = .ok outcome) ↔
      (grassTrimmingProject 100 1).missions ≠ [] :=
  calcOpCosts_returns_iff (regular_mowers _) (workable_mowers (by decide)) 5000

/-- Two mowers without a mission. -/
theorem not_calcOpCosts_returns_of_no_missions :
    Regular { grassTrimmingProject 100 1 with missions := [] } 0 mowersApi [0, 1] ∧
      Workable { grassTrimmingProject 100 1 with missions := [] } mowersApi [0, 1] ∧
      ¬∃ enough, ∀ fuel ≥ enough, ∃ outcome, calcOpCosts
        { grassTrimmingProject 100 1 with missions := [] } 0 mowersApi fuel [0, 1] 5000 =
          .ok outcome := by
  refine ⟨regular_mowers [], workable_mowers List.nodup_nil, ?_⟩
  rintro ⟨enough, terminates⟩
  rcases terminates (enough + 1) (Nat.le_succ _) with ⟨outcome, run⟩
  rw [calcOpCosts_no_missions rfl] at run
  cases run

end EvenUpDownOpCostCalculator

end MrsOptimization
