import MrsOptimization.Heuristic.EvenUpInvariant

/-!
# The result of the even-up-down calculator

The result is computed in improving rounds only, while the last round is always
an abandoned one. It is stale when the last round has handed out steps before it
was abandoned, and zero when no round improved the matrix
(`result_eq_costs_iff`).

A round is also abandoned when the work done exceeds what is needed by more than
the selected cell contributes in a step, so that the cell could be decreased for
free (`lastCell_needed_iff`).
-/

namespace MrsOptimization

namespace EvenUpDownOpCostCalculator

open AverageOpCostCalculator (performance energy mowersApi)

variable {A Comp Miss K : Type} [Field K] [LinearOrder K] [DecidableEq A]
  [DecidableEq Miss] {project : Project Comp Miss K} {scale : ℕ} {api : AgentApi Id A Miss K}
  {mrs : List A} {timeMatrix : AgentMissionMatrix A Miss K}

/-- What holds of the time matrix in any project. -/
structure Shaped (project : Project Comp Miss K) (mrs : List A)
    (timeMatrix : AgentMissionMatrix A Miss K) : Prop where
  agents_eq : timeMatrix.agents = mrs
  missions_eq : timeMatrix.missions = project.missions
  nonneg : ∀ row column, 0 ≤ timeMatrix.data row column

theorem Shaped.setValue (shaped : Shaped project mrs timeMatrix) (agent : A) (mission : Miss)
    (value : K) : Shaped project mrs (timeMatrix.setValue agent mission value) where
  agents_eq := shaped.agents_eq
  missions_eq := shaped.missions_eq
  nonneg row column := by
    rw [AgentMissionMatrix.data_setValue]
    split_ifs with _ positive
    · exact positive.le
    · exact le_rfl
    · exact shaped.nonneg row column

variable [FloorRing K]

theorem fillWork_shaped {pending : List Miss} (shaped : Shaped project mrs timeMatrix)
    {filled : AgentMissionMatrix A Miss K}
    (run : fillWork project scale api mrs pending timeMatrix = .ok filled) :
    Shaped project mrs filled := by
  induction pending generalizing timeMatrix with
  | nil =>
      cases run
      exact shaped
  | cons mission rest ih =>
      rw [fillWork] at run
      split at run
      · cases run
      · split at run
        · exact ih (shaped.setValue _ _ _) run
        · cases run

theorem Shaped.round (shaped : Shaped project mrs timeMatrix) {fuel : ℕ}
    {performed : Round A Miss K}
    (run : round project scale api fuel timeMatrix = .ok performed) :
    Shaped project mrs performed.after := by
  rcases round_ok run with ⟨-, -, final, handOutRun, -, -, after⟩
  have kept : Shaped project mrs final.timeMatrix := by
    rcases handOut_invariant (fun state => Shaped project mrs state.timeMatrix)
      (fun state other shaped _ _ => shaped.setValue _ _ _) shaped handOutRun with
      ⟨last, lastShaped, ⟨-, same⟩ | ⟨-, -, same⟩⟩
    · rw [same]
      exact lastShaped
    · rw [same]
      exact lastShaped
  rw [after]
  split
  · exact kept.setValue _ _ _
  · exact kept

theorem Reached.shaped {filled : AgentMissionMatrix A Miss K}
    (shaped : Shaped project mrs filled) (reached : Reached project scale api filled timeMatrix) :
    Shaped project mrs timeMatrix := by
  induction reached with
  | filled => exact shaped
  | improved _ run _ ih => exact ih.round run

section LastRound

variable [MathPow K]

/-- The last round of a calculation, the only abandoned one. -/
structure LastRound (project : Project Comp Miss K) (scale : ℕ) (api : AgentApi Id A Miss K)
    (Qinv start : K) (filled timeMatrix : AgentMissionMatrix A Miss K) (outcome : Outcome A Miss K)
    (improving : List (Round A Miss K)) (last : Round A Miss K) : Prop where
  rounds : outcome.rounds = improving ++ [last]
  reached : Reached project scale api filled last.before
  first : improving = [] → last.before = timeMatrix
  run : ∃ fuel, round project scale api fuel last.before = .ok last
  abandoned : last.changed = false
  final : outcome.timeMatrix = last.after
  result : outcome.result =
    if improving = [] then start else costs project api Qinv last.before

theorem improve_ok {Qinv start : K} {fuel : ℕ} {filled : AgentMissionMatrix A Miss K}
    (reached : Reached project scale api filled timeMatrix) {outcome : Outcome A Miss K}
    (run : improve project scale api Qinv fuel start timeMatrix = .ok outcome) :
    ∃ improving last,
      LastRound project scale api Qinv start filled timeMatrix outcome improving last := by
  induction fuel generalizing timeMatrix start outcome with
  | zero => cases run
  | succ fuel ih =>
      rw [improve] at run
      rcases bind_eq_ok.mp run with ⟨performed, performedRun, rest⟩
      have before := (round_ok performedRun).1
      cases changed : performed.changed with
      | false =>
          simp only [changed] at rest
          cases rest
          exact ⟨[], performed, rfl, before ▸ reached, fun _ => before,
            ⟨fuel, before ▸ performedRun⟩, changed, rfl, rfl⟩
      | true =>
          simp only [changed, if_true] at rest
          rcases bind_eq_ok.mp rest with ⟨later, laterRun, same⟩
          cases same
          rcases ih (reached.improved performedRun changed) laterRun with
            ⟨improving, last, rounds, lastReached, first, lastRun, abandoned, final, result⟩
          refine ⟨performed :: improving, last, by simp [rounds], lastReached, by simp, lastRun,
            abandoned, final, ?_⟩
          rw [if_neg (List.cons_ne_nil _ _)]
          by_cases none : improving = []
          · rw [first none]
            exact result.trans (if_pos none)
          · exact result.trans (if_neg none)

theorem calcOpCosts_ok {Qinv : K} {fuel : ℕ} {outcome : Outcome A Miss K}
    (run : calcOpCosts project scale api fuel mrs Qinv = .ok outcome) :
    ∃ filled improving last, Shaped project mrs last.before ∧
      LastRound project scale api Qinv 0 filled filled outcome improving last := by
  rcases bind_eq_ok.mp run with ⟨filled, fills, improves⟩
  have new : Shaped project mrs (AgentMissionMatrix.new mrs project.missions) :=
    ⟨rfl, rfl, fun _ _ => le_rfl⟩
  have shaped := fillWork_shaped new fills
  rcases improve_ok .filled improves with ⟨improving, last, lastRound⟩
  exact ⟨filled, improving, last, lastRound.reached.shaped shaped, lastRound⟩

end LastRound

section Abandoned

variable [IsStrictOrderedRing K] {agent : A} {mission : Miss}

/-- What holds while steps are handed out that are not positive: there is room for everyone. -/
structure Roomy (project : Project Comp Miss K) (api : AgentApi Id A Miss K) (mrs : List A)
    (timeMatrix : AgentMissionMatrix A Miss K) (agent : A) (mission : Miss)
    (state : Handout A Miss K) : Prop where
  shaped : Shaped project mrs state.timeMatrix
  load_le : ∀ other ∈ mrs, state.timeMatrix.getSumAgent other ≤ largestLoad timeMatrix
  untouched : state.given = [] → state = startHandout project api agent mission timeMatrix
  helped : state.given ≠ [] → state.changed = true ∧ ∃ other ∈ mrs, other ≠ agent ∧
    0 < performance api mission other ∧
    ExactDouble.less (costPerWork api mission other) (.finite project.config.nearInfinity)

theorem Roomy.give (step : valueStep project scale ≤ 0) (missionMem : mission ∈ project.missions)
    {state : Handout A Miss K} (roomy : Roomy project api mrs timeMatrix agent mission state)
    {maxValue : K} {other : A}
    (found : helper project scale api maxValue agent mission state.timeMatrix = some other) :
    Roomy project api mrs timeMatrix agent mission
      (giveStep project scale api mission other state) := by
  rcases helper_some found with ⟨otherMem, different, capable, -⟩
  have otherMem' : other ∈ mrs := roomy.shaped.agents_eq ▸ otherMem
  constructor
  · exact roomy.shaped.setValue _ _ _
  · intro third thirdMem
    have load := roomy.load_le third thirdMem
    simp only [giveStep, AgentMissionMatrix.incValue]
    by_cases same : third = other
    · subst same
      rw [AgentMissionMatrix.getSumAgent_setValue_self (roomy.shaped.missions_eq ▸ missionMem)]
      have cell : 0 ≤ state.timeMatrix.getValue third mission := roomy.shaped.nonneg _ _
      split <;> linarith
    · rwa [AgentMissionMatrix.getSumAgent_setValue_of_ne otherMem same]
  · simp [giveStep]
  · exact fun _ => ⟨rfl, other, otherMem', different, capable, (cheapest_some found).2⟩

theorem Roomy.helper_exists (step : valueStep project scale ≤ 0) {state : Handout A Miss K}
    (roomy : Roomy project api mrs timeMatrix agent mission state) (given : state.given ≠ []) :
    helper project scale api (largestLoad timeMatrix) agent mission state.timeMatrix ≠ none := by
  rcases (roomy.helped given).2 with ⟨other, otherMem, different, capable, cheap⟩
  intro missing
  have load := roomy.load_le other otherMem
  have passed := pickBest_none missing other (by
    simp only [List.mem_filter, decide_eq_true_eq]
    exact ⟨roomy.shaped.agents_eq ▸ otherMem, different, capable, by linarith⟩)
  simp [cheap] at passed

variable {fuel : ℕ} {performed : Round A Miss K}

/-- A step that is not positive leaves room for every agent, so that the first helper could
help again. -/
theorem abandoned_of_step_nonpos (shaped : Shaped project mrs timeMatrix)
    (step : valueStep project scale ≤ 0)
    (run : round project scale api fuel timeMatrix = .ok performed)
    (abandoned : performed.changed = false) :
    performed.given = [] ∧ performed.after = timeMatrix := by
  rcases round_ok run with ⟨-, pairRun, final, handOutRun, given, changed, after⟩
  rcases maxPair_ok pairRun with ⟨-, atMax, maxCost⟩
  have missionMem := shaped.missions_eq ▸ (AgentMissionMatrix.getMaxCost_some maxCost).1
  have maxValue : (maxCells api timeMatrix).2 = largestLoad timeMatrix :=
    (maxCells_spec api timeMatrix).value
  rw [maxValue] at handOutRun
  have start : Roomy project api mrs timeMatrix performed.agent performed.mission
      (startHandout project api performed.agent performed.mission timeMatrix) :=
    ⟨shaped, fun other otherMem => load_le_largestLoad (shaped.agents_eq ▸ otherMem),
      fun _ => rfl, fun given => absurd rfl given⟩
  have none : ∀ state, Roomy project api mrs timeMatrix performed.agent performed.mission state →
      state.given = [] → final.given = state.given →
      final.timeMatrix = state.timeMatrix →
      performed.given = [] ∧ performed.after = timeMatrix := by
    intro state roomy stateGiven sameGiven sameMatrix
    refine ⟨by rw [given, sameGiven, stateGiven], ?_⟩
    rw [after, ← changed, abandoned, sameMatrix, roomy.untouched stateGiven]
    rfl
  rcases handOut_invariant (Roomy project api mrs timeMatrix performed.agent performed.mission)
    (fun _ _ roomy _ found => roomy.give step missionMem found) start handOutRun with
    ⟨last, roomy, ⟨-, same⟩ | ⟨-, missing, same⟩⟩
  · apply none last roomy
    · by_contra some
      rw [changed, same, (roomy.helped some).1] at abandoned
      cases abandoned
    · rw [same]
    · rw [same]
  · apply none last roomy
    · by_contra some
      exact roomy.helper_exists step some missing
    · rw [same]
    · rw [same]

/-- The steps handed out in an abandoned round leave the largest load as it is. -/
theorem abandoned_of_step_pos (shaped : Shaped project mrs timeMatrix) (distinct : mrs.Nodup)
    (step : 0 < valueStep project scale)
    (run : round project scale api fuel timeMatrix = .ok performed)
    (abandoned : performed.changed = false) :
    largestLoad performed.after = largestLoad timeMatrix ∧
      (mrs.map fun agent => energy api agent * performed.after.getSumAgent agent).sum =
        (mrs.map fun agent => energy api agent * timeMatrix.getSumAgent agent).sum +
          valueStep project scale * (performed.given.map (energy api)).sum := by
  have spec := round_spec step (shaped.agents_eq ▸ distinct) shaped.nonneg run
  rcases spec.ending with ⟨state, progress, given, ending⟩
  cases ending with
  | improved changed _ _ => simp [abandoned] at changed
  | surplus _ none _ after =>
      rw [after, spec.before, given, none]
      simp
  | stuck _ _ _ after =>
      rw [after, given, ← shaped.agents_eq]
      refine ⟨le_antisymm ?_ ?_, progress.energies⟩
      · apply largestLoad_le largestLoad_nonneg
        intro other otherMem
        rw [progress.agents_eq] at otherMem
        rw [← spec.load_eq]
        rcases progress.load_cases other with same | below
        · rw [same]
          exact spec.load_le other otherMem
        · linarith
      · rw [← spec.load_eq, ← progress.selected_load]
        exact load_le_largestLoad (progress.agents_eq ▸ spec.agent_mem)

variable [MathPow K]

omit [IsStrictOrderedRing K] [FloorRing K] in
theorem costs_eq (distinctMissions : project.missions.Nodup) (Qinv : K)
    (shaped : Shaped project mrs timeMatrix) :
    costs project api Qinv timeMatrix =
      (mrs.map fun agent => energy api agent * timeMatrix.getSumAgent agent).sum +
        (project.costModel.calcSysMaint mrs.length + project.costModel.systemReplRate * Qinv) *
          largestLoad timeMatrix := by
  have loads : ∀ agent, timeMatrix.load agent = timeMatrix.getSumAgent agent :=
    AgentMissionMatrix.load_eq_getSumAgent (shaped.missions_eq ▸ distinctMissions)
  rw [costs, AgentMissionMatrix.getCosts_id, AgentMissionMatrix.maxLoad, largestLoad,
    shaped.agents_eq]
  simp only [loads]
  rfl

theorem abandoned_costs (shaped : Shaped project mrs timeMatrix) (distinct : mrs.Nodup)
    (distinctMissions : project.missions.Nodup) (Qinv : K)
    (run : round project scale api fuel timeMatrix = .ok performed)
    (abandoned : performed.changed = false) :
    costs project api Qinv performed.after = costs project api Qinv timeMatrix ↔
      (performed.given.map (energy api)).sum = 0 := by
  rcases le_or_gt (valueStep project scale) 0 with step | step
  · rcases abandoned_of_step_nonpos shaped step run abandoned with ⟨given, after⟩
    simp [given, after]
  · rcases abandoned_of_step_pos shaped distinct step run abandoned with ⟨load, energies⟩
    rw [costs_eq distinctMissions Qinv (shaped.round run), costs_eq distinctMissions Qinv shaped,
      load, energies]
    simp [step.ne']

end Abandoned

section FirstStep

variable {fuel : ℕ} {performed : Round A Miss K}

/-- An abandoned round hands out no step if the balance is negative or there is no helper. -/
theorem given_eq_nil_iff (run : round project scale api fuel timeMatrix = .ok performed)
    (abandoned : performed.changed = false) :
    performed.given = [] ↔
      deltaWork project api performed.agent performed.mission timeMatrix < 0 ∨
        helper project scale api (largestLoad timeMatrix) performed.agent performed.mission
          timeMatrix = none := by
  rcases round_ok run with ⟨-, -, final, handOutRun, given, changed, -⟩
  have maxValue : (maxCells api timeMatrix).2 = largestLoad timeMatrix :=
    (maxCells_spec api timeMatrix).value
  rw [maxValue] at handOutRun
  rw [given]
  rw [changed] at abandoned
  rcases fuel with _ | fuel
  · cases handOutRun
  · rw [handOut] at handOutRun
    by_cases pending : 0 < deltaWork project api performed.agent performed.mission timeMatrix
    · rw [if_pos (by simpa [startHandout] using pending)] at handOutRun
      simp only [startHandout, not_lt_of_gt pending, false_or] at handOutRun ⊢
      cases found : helper project scale api (largestLoad timeMatrix) performed.agent
          performed.mission timeMatrix with
      | none =>
          simp only [found] at handOutRun
          cases handOutRun
          simp
      | some other =>
          simp only [found] at handOutRun
          have nonempty : final.given ≠ [] := by
            rcases handOut_invariant (fun state => state.given ≠ [])
              (fun _ _ _ _ _ => by simp [giveStep]) (by simp [giveStep]) handOutRun with
              ⟨last, given, ⟨-, same⟩ | ⟨-, -, same⟩⟩
            · rwa [same]
            · rwa [same]
          simp [nonempty]
    · rw [if_neg (by simpa [startHandout] using pending)] at handOutRun
      cases handOutRun
      simp only [startHandout, decide_eq_false_iff_not] at abandoned ⊢
      simp [lt_of_le_of_ne (not_lt.mp pending) abandoned]

theorem given_subset (run : round project scale api fuel timeMatrix = .ok performed) :
    performed.given ⊆ timeMatrix.agents := by
  rcases round_ok run with ⟨-, -, final, handOutRun, given, -, -⟩
  rw [given]
  rcases handOut_invariant (fun state => state.timeMatrix.agents = timeMatrix.agents ∧
      state.given ⊆ timeMatrix.agents)
    (fun state other holds _ found => ⟨holds.1, List.append_subset.mpr ⟨holds.2, by
      simpa using holds.1 ▸ (helper_some found).1⟩⟩) ⟨rfl, List.nil_subset _⟩ handOutRun with
    ⟨last, holds, ⟨-, same⟩ | ⟨-, -, same⟩⟩
  · rw [same]
    exact holds.2
  · rw [same]
    exact holds.2

end FirstStep

section Result

variable [IsStrictOrderedRing K] {Qinv : K} {fuel : ℕ} {outcome : Outcome A Miss K}

omit [FloorRing K] in
/-- A most loaded agent with a mission to decrease consumes something. -/
theorem consumption_pos {agent : A} {mission : Miss} (shaped : Shaped project mrs timeMatrix)
    (positive : ∀ agent ∈ mrs, 0 < energy api agent)
    (found : maxPair api timeMatrix = .ok (agent, mission)) :
    0 < (mrs.map fun agent => energy api agent * timeMatrix.getSumAgent agent).sum := by
  rcases maxPair_ok found with ⟨agentMem, -, maxCost⟩
  rcases AgentMissionMatrix.getMaxCost_some maxCost with ⟨missionMem, -, cell⟩
  have loads : ∀ other, 0 ≤ timeMatrix.getSumAgent other := by
    intro other
    apply List.sum_nonneg
    simp [shaped.nonneg]
  have load : 0 < timeMatrix.getSumAgent agent :=
    cell.trans_le (AgentMissionMatrix.getValue_le_getSumAgent shaped.nonneg missionMem agent)
  have agentMem' := shaped.agents_eq ▸ agentMem
  apply (mul_pos (positive agent agentMem') load).trans_le
  apply List.single_le_sum
  · intro consumed consumedMem
    rcases List.mem_map.mp consumedMem with ⟨other, otherMem, rfl⟩
    exact mul_nonneg (positive other otherMem).le (loads other)
  · exact List.mem_map_of_mem agentMem'

/-- The matrix that an abandoned round leaves behind costs something. -/
theorem abandoned_costs_pos [MathPow K] {performed : Round A Miss K}
    (shaped : Shaped project mrs timeMatrix) (distinct : mrs.Nodup)
    (distinctMissions : project.missions.Nodup)
    (positive : ∀ agent ∈ mrs, 0 < energy api agent)
    (system : 0 ≤ project.costModel.calcSysMaint mrs.length +
      project.costModel.systemReplRate * Qinv)
    (run : round project scale api fuel timeMatrix = .ok performed)
    (abandoned : performed.changed = false) :
    0 < costs project api Qinv performed.after := by
  have consumed := consumption_pos shaped positive (round_ok run).2.1
  rw [costs_eq distinctMissions Qinv (shaped.round run)]
  apply add_pos_of_pos_of_nonneg
  · rcases le_or_gt (valueStep project scale) 0 with step | step
    · rw [(abandoned_of_step_nonpos shaped step run abandoned).2]
      exact consumed
    · rw [(abandoned_of_step_pos shaped distinct step run abandoned).2]
      apply add_pos_of_pos_of_nonneg consumed
      apply mul_nonneg step.le
      apply List.sum_nonneg
      intro spent spentMem
      rcases List.mem_map.mp spentMem with ⟨agent, agentMem, rfl⟩
      exact (positive agent (shaped.agents_eq ▸ given_subset run agentMem)).le
  · exact mul_nonneg system largestLoad_nonneg

theorem given_energies_eq_zero_iff {performed : Round A Miss K}
    (shaped : Shaped project mrs timeMatrix) (positive : ∀ agent ∈ mrs, 0 < energy api agent)
    (run : round project scale api fuel timeMatrix = .ok performed) :
    (performed.given.map (energy api)).sum = 0 ↔ performed.given = [] := by
  constructor
  · contrapose
    intro some
    apply ne_of_gt
    apply List.sum_pos
    · intro consumed consumedMem
      rcases List.mem_map.mp consumedMem with ⟨agent, agentMem, rfl⟩
      exact positive agent (shaped.agents_eq ▸ given_subset run agentMem)
    · simpa using some
  · intro none
    simp [none]

/-- The result is the cost of the matrix as it stands if and only if a round improved it and the
agents that got steps in the last, abandoned round consume nothing together, or no round improved
it and it costs nothing. When energies are positive, this takes an improving round and a last one
that began with a negative balance or without a helper. -/
theorem result_eq_costs_iff [MathPow K] (distinct : mrs.Nodup)
    (distinctMissions : project.missions.Nodup)
    (run : calcOpCosts project scale api fuel mrs Qinv = .ok outcome) :
    ∃ improving last, outcome.rounds = improving ++ [last] ∧
      (outcome.result = costs project api Qinv outcome.timeMatrix ↔
        if improving = [] then costs project api Qinv outcome.timeMatrix = 0
        else (last.given.map (energy api)).sum = 0) ∧
      ((∀ agent ∈ mrs, 0 < energy api agent) →
        0 ≤ project.costModel.calcSysMaint mrs.length + project.costModel.systemReplRate * Qinv →
        (outcome.result = costs project api Qinv outcome.timeMatrix ↔
          improving ≠ [] ∧
            (deltaWork project api last.agent last.mission last.before < 0 ∨
              helper project scale api (largestLoad last.before) last.agent last.mission
                last.before = none))) := by
  rcases calcOpCosts_ok run with ⟨filled, improving, last, shaped, lastRound⟩
  rcases lastRound.run with ⟨roundFuel, roundRun⟩
  have exact : outcome.result = costs project api Qinv outcome.timeMatrix ↔
      if improving = [] then costs project api Qinv outcome.timeMatrix = 0
      else (last.given.map (energy api)).sum = 0 := by
    rw [lastRound.result, lastRound.final]
    split
    · exact eq_comm
    · rw [eq_comm]
      exact abandoned_costs shaped distinct distinctMissions Qinv roundRun lastRound.abandoned
  refine ⟨improving, last, lastRound.rounds, exact, ?_⟩
  intro positive system
  have costly := abandoned_costs_pos shaped distinct distinctMissions positive system roundRun
    lastRound.abandoned
  rw [exact, lastRound.final, ← given_eq_nil_iff roundRun lastRound.abandoned]
  by_cases none : improving = []
  · simp [none, costly.ne']
  · rw [if_neg none]
    simp [none, given_energies_eq_zero_iff shaped positive roundRun]

/-- The last round ends because the cell that it selected is needed, unless it began with a
negative balance: then a step of the cell could be saved. -/
theorem lastCell_needed_iff [MathPow K] (distinct : mrs.Nodup) (step : valueStep project scale = 1)
    (run : calcOpCosts project scale api fuel mrs Qinv = .ok outcome) :
    ∃ improving last, outcome.rounds = improving ++ [last] ∧
      (outcome.timeMatrix.getWorkDone (performance api) last.mission -
          performance api last.mission last.agent <
            (project.mission last.mission).getAmountOfWork ↔
        0 ≤ deltaWork project api last.agent last.mission last.before) ∧
      (1 ≤ outcome.timeMatrix.getValue last.agent last.mission →
        ((outcome.timeMatrix.incValue last.agent last.mission (-1)).getWorkDone (performance api)
            last.mission < (project.mission last.mission).getAmountOfWork ↔
          0 ≤ deltaWork project api last.agent last.mission last.before)) := by
  rcases calcOpCosts_ok run with ⟨filled, improving, last, shaped, lastRound⟩
  rcases lastRound.run with ⟨roundFuel, roundRun⟩
  have spec := round_spec (step ▸ one_pos) (shaped.agents_eq ▸ distinct) shaped.nonneg roundRun
  have needed : outcome.timeMatrix.getWorkDone (performance api) last.mission -
      performance api last.mission last.agent < (project.mission last.mission).getAmountOfWork ↔
        0 ≤ deltaWork project api last.agent last.mission last.before := by
    rw [lastRound.final]
    rcases spec.ending with ⟨state, progress, -, ending⟩
    cases ending with
    | improved changed _ _ => simp [lastRound.abandoned] at changed
    | surplus _ _ negative after =>
        rw [after]
        refine ⟨fun covered => ?_, fun nonneg => absurd negative nonneg.not_gt⟩
        rw [deltaWork] at negative
        linarith
    | stuck _ pending _ after =>
        have work := progress.work
        have less := progress.deltaWork_le
        rw [after, work, step]
        refine ⟨fun _ => pending.le.trans less, fun _ => ?_⟩
        rw [deltaWork]
        linarith
  refine ⟨improving, last, lastRound.rounds, needed, fun cell => ?_⟩
  have final := (shaped.round roundRun)
  rw [← lastRound.final] at final
  rw [AgentMissionMatrix.getWorkDone_incValue_self (final.agents_eq ▸ distinct)
    (final.agents_eq ▸ shaped.agents_eq ▸ spec.agent_mem)
    (final.missions_eq ▸ shaped.missions_eq ▸ spec.mission_mem) _ (by linarith), neg_one_mul,
    ← sub_eq_add_neg]
  exact needed

end Result

/-- Only the camera is used. -/
def watchingProject : Project GrassComponent GrassMission ℚ :=
  { grassTrimmingProject 100 1 with missions := [.watching] }

theorem result_eq_costs_iff_watching :
    ∃ outcome, calcOpCosts watchingProject 0 mowersApi 2 [0, 1] 5000 = .ok outcome ∧
      ∃ improving last, outcome.rounds = improving ++ [last] ∧
        (outcome.result = costs watchingProject mowersApi 5000 outcome.timeMatrix ↔
          if improving = [] then costs watchingProject mowersApi 5000 outcome.timeMatrix = 0
          else (last.given.map (energy mowersApi)).sum = 0) := by
  have returns : (calcOpCosts watchingProject 0 mowersApi 2 [0, 1] 5000).isOk = true := by
    decide +kernel
  cases run : calcOpCosts watchingProject 0 mowersApi 2 [0, 1] 5000 with
  | error failure => simp [run, Except.isOk, Except.toBool] at returns
  | ok outcome =>
      rcases result_eq_costs_iff (by decide) (List.nodup_singleton _) run with
        ⟨improving, last, rounds, iff, -⟩
      exact ⟨outcome, rfl, improving, last, rounds, iff⟩

/-- The camera robot watches for one step, and no round can improve this: the result is zero. -/
theorem result_ne_costs_watching :
    ∃ outcome, calcOpCosts watchingProject 0 mowersApi 2 [0, 1] 5000 = .ok outcome ∧
      outcome.result = 0 ∧
      outcome.result ≠ costs watchingProject mowersApi 5000 outcome.timeMatrix := by
  have differs : (match calcOpCosts watchingProject 0 mowersApi 2 [0, 1] 5000 with
    | .error _ => false
    | .ok outcome => decide (outcome.result = 0 ∧
        outcome.result ≠ costs watchingProject mowersApi 5000 outcome.timeMatrix)) = true := by
    decide +kernel
  cases run : calcOpCosts watchingProject 0 mowersApi 2 [0, 1] 5000 with
  | error failure => simp [run] at differs
  | ok outcome =>
      rw [run] at differs
      exact ⟨outcome, rfl, of_decide_eq_true differs⟩

/-- A slow robot, and a fast one that needs twice the energy for a unit of work. -/
def unevenApi : AgentApi Id ℕ GrassMission ℚ where
  getAgentPerformance _ agent := return if agent = 0 then 1 else 10
  getOperatingEnergy agent := return if agent = 0 then 1 else 20

/-- Only the grass is mowed. -/
def mowingProject : Project GrassComponent GrassMission ℚ :=
  { grassTrimmingProject 100 1 with missions := [.mowing] }

theorem lastCell_needed_iff_mowing :
    ∃ outcome, calcOpCosts mowingProject 0 unevenApi 3 [0, 1] 5000 = .ok outcome ∧
      ∃ improving last, outcome.rounds = improving ++ [last] ∧
        (outcome.timeMatrix.getWorkDone (performance unevenApi) last.mission -
            performance unevenApi last.mission last.agent <
              (mowingProject.mission last.mission).getAmountOfWork ↔
          0 ≤ deltaWork mowingProject unevenApi last.agent last.mission last.before) := by
  have returns : (calcOpCosts mowingProject 0 unevenApi 3 [0, 1] 5000).isOk = true := by
    decide +kernel
  cases run : calcOpCosts mowingProject 0 unevenApi 3 [0, 1] 5000 with
  | error failure => simp [run, Except.isOk, Except.toBool] at returns
  | ok outcome =>
      rcases lastCell_needed_iff (by decide) (by decide +kernel) run with
        ⟨improving, last, rounds, iff, -⟩
      exact ⟨outcome, rfl, improving, last, rounds, iff⟩

/-- One step of the fast robot does the work of ten steps of the slow one, of which the
calculator takes back only one. -/
theorem lastCell_not_needed_mowing :
    valueStep mowingProject 0 = 1 ∧
      ∃ outcome, calcOpCosts mowingProject 0 unevenApi 3 [0, 1] 5000 = .ok outcome ∧
        ∃ last ∈ outcome.rounds.getLast?,
          outcome.timeMatrix.getValue last.agent last.mission = 7499 ∧
            (mowingProject.mission last.mission).getAmountOfWork ≤
              (outcome.timeMatrix.incValue last.agent last.mission (-1)).getWorkDone
                (performance unevenApi) last.mission := by
  refine ⟨by decide +kernel, ?_⟩
  have saved : (match calcOpCosts mowingProject 0 unevenApi 3 [0, 1] 5000 with
    | .error _ => false
    | .ok outcome => decide (∃ last ∈ outcome.rounds.getLast?,
        outcome.timeMatrix.getValue last.agent last.mission = 7499 ∧
          (mowingProject.mission last.mission).getAmountOfWork ≤
            (outcome.timeMatrix.incValue last.agent last.mission (-1)).getWorkDone
              (performance unevenApi) last.mission)) = true := by decide +kernel
  cases run : calcOpCosts mowingProject 0 unevenApi 3 [0, 1] 5000 with
  | error failure => simp [run] at saved
  | ok outcome =>
      rw [run] at saved
      exact ⟨outcome, rfl, of_decide_eq_true saved⟩

end EvenUpDownOpCostCalculator

end MrsOptimization
