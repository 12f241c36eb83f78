import MrsOptimization.Heuristic.EvenUpDown

/-!
# What a round of the even-up-down calculator does

`RoundSpec` says what a completed round can do to the time matrix when the value
step is positive. From it follows that the rounds keep the work of all missions
done, keep the cells multiples of the value step, and never increase the largest
load (`rounds_sound`).
-/

namespace MrsOptimization

namespace EvenUpDownOpCostCalculator

open AverageOpCostCalculator (performance energy mowersApi)

variable {A Comp Miss K : Type} [Field K] [LinearOrder K] {project : Project Comp Miss K}
  {scale : ℕ} {api : AgentApi Id A Miss K}

/-- The assumptions on a project and its agents under which costs and steps are positive. -/
structure Regular (project : Project Comp Miss K) (scale : ℕ) (api : AgentApi Id A Miss K)
    (mrs : List A) : Prop where
  distinct : mrs.Nodup
  energy_pos : ∀ agent ∈ mrs, 0 < energy api agent
  performance_nonneg : ∀ mission ∈ project.missions, ∀ agent ∈ mrs,
    0 ≤ performance api mission agent
  work_nonneg : ∀ mission ∈ project.missions, 0 ≤ (project.mission mission).getAmountOfWork
  nearZero_pos : 0 < project.config.nearZero
  nearZero_le : project.config.nearZero ≤ 1 / (10 ^ scale : ℕ)

namespace Regular

variable {mrs : List A}

theorem performance_pos (regular : Regular project scale api mrs) {mission : Miss} {agent : A}
    (missionMem : mission ∈ project.missions)
    (found : cheapest project api mission mrs = some agent) :
    0 < performance api mission agent := by
  rcases cheapest_some found with ⟨agentMem, cheap⟩
  apply lt_of_le_of_ne (regular.performance_nonneg mission missionMem agent agentMem)
  intro zero
  rw [costPerWork, ← zero, ExactDouble.divide_zero_of_pos (regular.energy_pos agent agentMem)]
    at cheap
  simp at cheap

variable [FloorRing K] [IsStrictOrderedRing K]

theorem valueStep_eq (regular : Regular project scale api mrs) :
    valueStep project scale = 1 / (10 ^ scale : ℕ) := by
  have unit : (0 : K) < (10 ^ scale : ℕ) := by positivity
  have one : ⌈project.config.nearZero * (10 ^ scale : ℕ)⌉ = 1 := by
    rw [Int.ceil_eq_iff]
    constructor
    · have := mul_pos regular.nearZero_pos unit
      simpa using this
    · have := (le_div_iff₀ unit).mp regular.nearZero_le
      simpa using this
  rw [valueStep, AverageOpCostCalculator.roundUp_of_nonneg _ regular.nearZero_pos.le,
    AverageOpCostCalculator.ceilTo]
  simp only [one, Int.cast_one]

theorem valueStep_pos (regular : Regular project scale api mrs) :
    0 < valueStep project scale := by
  rw [regular.valueStep_eq]
  positivity

theorem valueStep_le_one (regular : Regular project scale api mrs) :
    valueStep project scale ≤ 1 := by
  rw [regular.valueStep_eq]
  apply div_le_one_of_le₀
  · exact_mod_cast Nat.one_le_pow scale 10 (by norm_num)
  · positivity

end Regular

variable [FloorRing K]

section Round

variable [DecidableEq A] [DecidableEq Miss] {timeMatrix : AgentMissionMatrix A Miss K}
  {agent : A} {mission : Miss}

/-- What holds while a round that started with `timeMatrix` hands out steps. -/
structure Progress (project : Project Comp Miss K) (scale : ℕ) (api : AgentApi Id A Miss K)
    (timeMatrix : AgentMissionMatrix A Miss K) (agent : A) (mission : Miss)
    (state : Handout A Miss K) : Prop where
  agents_eq : state.timeMatrix.agents = timeMatrix.agents
  missions_eq : state.timeMatrix.missions = timeMatrix.missions
  raised : ∀ row column, ∃ steps : ℕ, state.timeMatrix.data row column =
    timeMatrix.data row column + steps * valueStep project scale
  values : ∀ other third, state.timeMatrix.getValue other third = timeMatrix.getValue other third ∨
    third = mission ∧ 0 < performance api mission other
  untouched : state.given = [] → state = startHandout project api agent mission timeMatrix
  changed : state.given ≠ [] → state.changed = true
  selected_value : state.timeMatrix.getValue agent mission = timeMatrix.getValue agent mission
  selected_load : state.timeMatrix.getSumAgent agent = timeMatrix.getSumAgent agent
  load_cases : ∀ other, state.timeMatrix.getSumAgent other = timeMatrix.getSumAgent other ∨
    state.timeMatrix.getSumAgent other ≤ timeMatrix.getSumAgent agent - valueStep project scale
  deltaWork_le : state.deltaWork ≤ deltaWork project api agent mission timeMatrix
  work : state.timeMatrix.getWorkDone (performance api) mission =
    timeMatrix.getWorkDone (performance api) mission +
      valueStep project scale * (deltaWork project api agent mission timeMatrix - state.deltaWork)
  otherWork : ∀ other ≠ mission, state.timeMatrix.getWorkDone (performance api) other =
    timeMatrix.getWorkDone (performance api) other
  energies : (timeMatrix.agents.map fun other =>
      energy api other * state.timeMatrix.getSumAgent other).sum =
    (timeMatrix.agents.map fun other => energy api other * timeMatrix.getSumAgent other).sum +
      valueStep project scale * (state.given.map (energy api)).sum

theorem Progress.start (timeMatrix : AgentMissionMatrix A Miss K) (agent : A)
    (mission : Miss) : Progress project scale api timeMatrix agent mission
      (startHandout project api agent mission timeMatrix) where
  agents_eq := rfl
  missions_eq := rfl
  raised _ _ := ⟨0, by simp [startHandout]⟩
  values _ _ := Or.inl rfl
  untouched _ := rfl
  changed given := absurd rfl given
  selected_value := rfl
  selected_load := rfl
  load_cases _ := Or.inl rfl
  deltaWork_le := le_rfl
  work := by simp [startHandout]
  otherWork _ _ := rfl
  energies := by simp [startHandout]

variable [IsStrictOrderedRing K]

theorem Progress.nonneg {state : Handout A Miss K}
    (progress : Progress project scale api timeMatrix agent mission state)
    (step : 0 < valueStep project scale)
    (nonneg : ∀ row column, 0 ≤ timeMatrix.data row column) (row column : ℕ) :
    0 ≤ state.timeMatrix.data row column := by
  rcases progress.raised row column with ⟨steps, raised⟩
  rw [raised]
  have := nonneg row column
  positivity

theorem Progress.give {state : Handout A Miss K} {other : A}
    (progress : Progress project scale api timeMatrix agent mission state)
    (step : 0 < valueStep project scale) (nodup : timeMatrix.agents.Nodup)
    (nonneg : ∀ row column, 0 ≤ timeMatrix.data row column)
    (missionMem : mission ∈ timeMatrix.missions)
    (found : helper project scale api (timeMatrix.getSumAgent agent) agent mission
      state.timeMatrix = some other) :
    Progress project scale api timeMatrix agent mission
      (giveStep project scale api mission other state) := by
  rcases helper_some found with ⟨otherMem, different, capable, room⟩
  have missionMem' : mission ∈ state.timeMatrix.missions := progress.missions_eq ▸ missionMem
  have nodup' : state.timeMatrix.agents.Nodup := progress.agents_eq ▸ nodup
  have cell : 0 ≤ state.timeMatrix.getValue other mission + valueStep project scale :=
    add_nonneg (progress.nonneg step nonneg _ _) step.le
  constructor
  · exact progress.agents_eq
  · exact progress.missions_eq
  · intro row column
    rcases progress.raised row column with ⟨steps, raised⟩
    simp only [giveStep, AgentMissionMatrix.data_incValue cell, raised]
    split
    · exact ⟨steps + 1, by push_cast; ring⟩
    · exact ⟨steps, by ring⟩
  · intro third thirdMission
    simp only [giveStep, AgentMissionMatrix.incValue]
    rw [AgentMissionMatrix.getValue_setValue otherMem missionMem']
    split
    · rename_i here
      exact Or.inr ⟨here.2, here.1 ▸ capable⟩
    · exact progress.values third thirdMission
  · intro given
    simp [giveStep] at given
  · intro _
    rfl
  · simp only [giveStep, AgentMissionMatrix.incValue]
    rw [AgentMissionMatrix.getValue_setValue otherMem missionMem', if_neg]
    · exact progress.selected_value
    · exact fun same => different same.1.symm
  · simp only [giveStep, AgentMissionMatrix.incValue]
    rw [AgentMissionMatrix.getSumAgent_setValue_of_ne otherMem different.symm]
    exact progress.selected_load
  · intro third
    simp only [giveStep]
    by_cases same : third = other
    · subst same
      right
      rw [AgentMissionMatrix.getSumAgent_incValue_self missionMem' cell]
      exact room
    · rw [AgentMissionMatrix.incValue,
        AgentMissionMatrix.getSumAgent_setValue_of_ne otherMem same]
      exact progress.load_cases third
  · simp only [giveStep]
    have := progress.deltaWork_le
    linarith
  · simp only [giveStep]
    rw [AgentMissionMatrix.getWorkDone_incValue_self nodup' otherMem missionMem' _ cell,
      progress.work]
    ring
  · intro third thirdNe
    simp only [giveStep, AgentMissionMatrix.incValue]
    rw [AgentMissionMatrix.getWorkDone_setValue_of_ne otherMem missionMem' _ thirdNe]
    exact progress.otherWork third thirdNe
  · have added := AgentMissionMatrix.sum_mul_getSumAgent_incValue nodup' otherMem missionMem'
      (energy api) cell
    rw [progress.agents_eq, progress.energies] at added
    simp only [giveStep, added, List.map_append, List.sum_append, List.map_cons, List.map_nil,
      List.sum_singleton]
    ring

/-- How a round ends: with a step taken from the selected cell, or abandoned. -/
inductive Ending (project : Project Comp Miss K) (scale : ℕ) (api : AgentApi Id A Miss K)
    (performed : Round A Miss K) (state : Handout A Miss K) : Prop where
  | improved (changed : performed.changed = true) (made_up : state.deltaWork ≤ 0)
      (after : performed.after = state.timeMatrix.incValue performed.agent performed.mission
        (-valueStep project scale))
  | surplus (abandoned : performed.changed = false) (given : state.given = [])
      (negative : deltaWork project api performed.agent performed.mission performed.before < 0)
      (after : performed.after = performed.before)
  | stuck (abandoned : performed.changed = false) (pending : 0 < state.deltaWork)
      (missing : helper project scale api (performed.before.getSumAgent performed.agent)
        performed.agent performed.mission performed.after = none)
      (after : performed.after = state.timeMatrix)

/-- A completed round that started with `timeMatrix`. -/
structure RoundSpec (project : Project Comp Miss K) (scale : ℕ) (api : AgentApi Id A Miss K)
    (timeMatrix : AgentMissionMatrix A Miss K) (performed : Round A Miss K) : Prop where
  before : performed.before = timeMatrix
  agent_mem : performed.agent ∈ timeMatrix.agents
  mission_mem : performed.mission ∈ timeMatrix.missions
  capable : 0 < performance api performed.mission performed.agent
  positive : 0 < timeMatrix.getValue performed.agent performed.mission
  load_le : ∀ other ∈ timeMatrix.agents,
    timeMatrix.getSumAgent other ≤ timeMatrix.getSumAgent performed.agent
  load_eq : timeMatrix.getSumAgent performed.agent = largestLoad timeMatrix
  ending : ∃ state,
    Progress project scale api timeMatrix performed.agent performed.mission state ∧
      performed.given = state.given ∧ Ending project scale api performed state

theorem round_spec (step : 0 < valueStep project scale) (nodup : timeMatrix.agents.Nodup)
    (nonneg : ∀ row column, 0 ≤ timeMatrix.data row column) {fuel : ℕ}
    {performed : Round A Miss K}
    (run : round project scale api fuel timeMatrix = .ok performed) :
    RoundSpec project scale api timeMatrix performed := by
  rcases round_ok run with ⟨before, pairRun, final, handOutRun, given, changed, after⟩
  rcases maxPair_ok pairRun with ⟨agentMem, atMax, maxCost⟩
  rcases AgentMissionMatrix.getMaxCost_some maxCost with ⟨missionMem, capable, positive⟩
  have maxCells := maxCells_spec api timeMatrix
  refine ⟨before, agentMem, missionMem, capable, positive, ?_, ?_, ?_⟩
  · rw [atMax]
    exact maxCells.load_le
  · rw [atMax, maxCells.value, largestLoad]
  · rw [← atMax] at handOutRun
    rcases handOut_invariant
      (Progress project scale api timeMatrix performed.agent performed.mission)
      (fun _ _ progress _ found => Progress.give progress step nodup nonneg missionMem found)
      (Progress.start timeMatrix performed.agent performed.mission) handOutRun with
      ⟨last, progress, ⟨made_up, same⟩ | ⟨pending, missing, same⟩⟩
    · subst same
      refine ⟨final, progress, given, ?_⟩
      cases flag : final.changed with
      | true => exact .improved (changed.trans flag) made_up (by simpa [flag] using after)
      | false =>
          have none : final.given = [] := by
            by_contra some
            simp [progress.changed some] at flag
          have untouched := progress.untouched none
          rw [untouched] at flag made_up after
          simp only [startHandout, decide_eq_false_iff_not] at flag made_up after
          refine .surplus (by simp [changed, untouched, startHandout, flag]) none ?_ ?_
          · rw [before]
            exact lt_of_le_of_ne made_up flag
          · rw [before]
            simpa [flag] using after
    · refine ⟨last, progress, by simp [given, same], ?_⟩
      subst same
      simp only [if_neg Bool.false_ne_true] at after
      exact .stuck changed pending (by rw [before, after]; exact missing) after

/-- The matrices at the beginning of a round. -/
inductive Reached (project : Project Comp Miss K) (scale : ℕ) (api : AgentApi Id A Miss K)
    (filled : AgentMissionMatrix A Miss K) : AgentMissionMatrix A Miss K → Prop where
  | filled : Reached project scale api filled filled
  | improved {timeMatrix : AgentMissionMatrix A Miss K} {fuel : ℕ} {performed : Round A Miss K}
      (reached : Reached project scale api filled timeMatrix)
      (run : round project scale api fuel timeMatrix = .ok performed)
      (changed : performed.changed = true) : Reached project scale api filled performed.after

end Round

section Soundness

/-- Every cell is a non-negative multiple of the value step. -/
def OnGrid (project : Project Comp Miss K) (scale : ℕ) (timeMatrix : AgentMissionMatrix A Miss K) :
    Prop :=
  ∀ row column, ∃ steps : ℕ, timeMatrix.data row column = steps * valueStep project scale

theorem OnGrid.nonneg [IsStrictOrderedRing K] {timeMatrix : AgentMissionMatrix A Miss K}
    (grid : OnGrid project scale timeMatrix) (step : 0 < valueStep project scale)
    (row column : ℕ) : 0 ≤ timeMatrix.data row column := by
  rcases grid row column with ⟨steps, eq⟩
  rw [eq]
  positivity

variable [DecidableEq A] [DecidableEq Miss]

/-- What holds of the time matrix when the given missions have been filled in. -/
structure Sound (project : Project Comp Miss K) (scale : ℕ) (api : AgentApi Id A Miss K)
    (mrs : List A) (missions : List Miss) (timeMatrix : AgentMissionMatrix A Miss K) : Prop where
  agents_eq : timeMatrix.agents = mrs
  missions_eq : timeMatrix.missions = project.missions
  grid : OnGrid project scale timeMatrix
  capable : ∀ agent ∈ mrs, ∀ mission ∈ project.missions,
    0 < timeMatrix.getValue agent mission → 0 < performance api mission agent
  covered : ∀ mission ∈ missions, (project.mission mission).getAmountOfWork ≤
    timeMatrix.getWorkDone (performance api) mission

theorem sound_new (project : Project Comp Miss K) (scale : ℕ) (api : AgentApi Id A Miss K)
    (mrs : List A) :
    Sound project scale api mrs [] (AgentMissionMatrix.new mrs project.missions) where
  agents_eq := rfl
  missions_eq := rfl
  grid _ _ := ⟨0, by simp [AgentMissionMatrix.new]⟩
  capable _ _ _ _ positive := by simp at positive
  covered := by simp

variable [IsStrictOrderedRing K] {mrs : List A} (regular : Regular project scale api mrs)
  {missions : List Miss} {timeMatrix : AgentMissionMatrix A Miss K}

include regular

theorem Sound.nonneg (sound : Sound project scale api mrs missions timeMatrix)
    (row column : ℕ) : 0 ≤ timeMatrix.data row column := by
  exact sound.grid.nonneg regular.valueStep_pos row column

omit [DecidableEq A] [DecidableEq Miss] in
/-- Times are rounded up to whole steps. -/
theorem ceilTo_onGrid {value : K} (nonneg : 0 ≤ value) :
    ∃ steps : ℕ, AverageOpCostCalculator.ceilTo scale value = steps * valueStep project scale := by
  rcases (AverageOpCostCalculator.isLeast_ceilTo scale value).1.2 with ⟨steps, eq⟩
  have unit : (0 : K) < (10 ^ scale : ℕ) := by positivity
  have stepsNonneg : 0 ≤ steps := by
    have := mul_nonneg (AverageOpCostCalculator.ceilTo_nonneg scale nonneg) unit.le
    rw [eq, div_mul_cancel₀ _ unit.ne'] at this
    exact_mod_cast this
  refine ⟨steps.toNat, ?_⟩
  have cast : ((steps.toNat : ℕ) : K) = (steps : K) := by
    exact_mod_cast congrArg (Int.cast (R := K)) (Int.toNat_of_nonneg stepsNonneg)
  rw [eq, regular.valueStep_eq, cast]
  ring

theorem Sound.fill (sound : Sound project scale api mrs missions timeMatrix) {mission : Miss}
    (missionMem : mission ∈ project.missions) {agent : A}
    (found : cheapest project api mission mrs = some agent) :
    Sound project scale api mrs (missions ++ [mission]) (timeMatrix.setValue agent mission
      (roundUp scale ((project.mission mission).getAmountOfWork /
        performance api mission agent))) := by
  have agentMem := (cheapest_some found).1
  have capable := regular.performance_pos missionMem found
  have agentMem' : agent ∈ timeMatrix.agents := sound.agents_eq ▸ agentMem
  have missionMem' : mission ∈ timeMatrix.missions := sound.missions_eq ▸ missionMem
  have quotient := div_nonneg (regular.work_nonneg mission missionMem) capable.le
  rw [AverageOpCostCalculator.roundUp_of_nonneg scale quotient]
  have onGrid := ceilTo_onGrid regular quotient
  have nonneg := AverageOpCostCalculator.ceilTo_nonneg scale quotient
  have enough := (AverageOpCostCalculator.isLeast_ceilTo scale
    ((project.mission mission).getAmountOfWork / performance api mission agent)).1.1
  generalize AverageOpCostCalculator.ceilTo scale
    ((project.mission mission).getAmountOfWork / performance api mission agent) = time
    at onGrid nonneg enough ⊢
  have grid : OnGrid project scale (timeMatrix.setValue agent mission time) := by
    intro row column
    rw [AgentMissionMatrix.data_setValue, AgentMissionMatrix.written_of_nonneg nonneg]
    split
    · exact onGrid
    · exact sound.grid row column
  constructor
  · exact sound.agents_eq
  · exact sound.missions_eq
  · exact grid
  · intro other otherMem third thirdMem positive
    rw [AgentMissionMatrix.getValue_setValue agentMem' missionMem'] at positive
    split at positive
    · rename_i here
      rw [here.1, here.2]
      exact capable
    · exact sound.capable other otherMem third thirdMem positive
  · intro third thirdMem
    by_cases same : third = mission
    · subst same
      have able : ∀ other ∈ (timeMatrix.setValue agent third time).agents,
          0 ≤ performance api third other := fun other otherMem =>
        regular.performance_nonneg third missionMem other (sound.agents_eq ▸ otherMem)
      have worked := AgentMissionMatrix.mul_le_getWorkDone
        (fun other _ => grid.nonneg regular.valueStep_pos _ _) able agentMem'
      rw [AgentMissionMatrix.getValue_setValue agentMem' missionMem', if_pos ⟨rfl, rfl⟩,
        AgentMissionMatrix.written_of_nonneg nonneg] at worked
      exact ((div_le_iff₀ capable).mp enough).trans worked
    · rw [AgentMissionMatrix.getWorkDone_setValue_of_ne agentMem' missionMem' _ same]
      apply sound.covered
      simpa [same] using thirdMem

theorem fillWork_sound {pending : List Miss} (subset : pending ⊆ project.missions)
    (sound : Sound project scale api mrs missions timeMatrix)
    {filled : AgentMissionMatrix A Miss K}
    (run : fillWork project scale api mrs pending timeMatrix = .ok filled) :
    Sound project scale api mrs (missions ++ pending) filled := by
  induction pending generalizing missions timeMatrix with
  | nil =>
      cases run
      simpa using sound
  | cons mission rest ih =>
      have missionMem := subset List.mem_cons_self
      rw [fillWork] at run
      split at run
      · cases run
      · rename_i agent found
        have capable := regular.performance_pos missionMem found
        rw [ExactDouble.divide_of_ne_zero _ capable.ne'] at run
        have later := ih (fun _ mem => subset (List.mem_cons_of_mem mission mem))
          (sound.fill regular missionMem found) run
        simpa using later

theorem Sound.handOut (sound : Sound project scale api mrs project.missions timeMatrix)
    {agent : A} {mission : Miss} {state : Handout A Miss K}
    (progress : Progress project scale api timeMatrix agent mission state) :
    Sound project scale api mrs project.missions state.timeMatrix where
  agents_eq := progress.agents_eq.trans sound.agents_eq
  missions_eq := progress.missions_eq.trans sound.missions_eq
  grid row column := by
    rcases sound.grid row column with ⟨steps, eq⟩
    rcases progress.raised row column with ⟨more, raised⟩
    refine ⟨steps + more, ?_⟩
    rw [raised, eq]
    push_cast
    ring
  capable other otherMem third thirdMem positive := by
    rcases progress.values other third with same | ⟨rfl, able⟩
    · rw [same] at positive
      exact sound.capable other otherMem third thirdMem positive
    · exact able
  covered third thirdMem := by
    have before := sound.covered third thirdMem
    by_cases same : third = mission
    · subst same
      have gained := mul_nonneg regular.valueStep_pos.le (sub_nonneg.mpr progress.deltaWork_le)
      rw [progress.work]
      linarith
    · rwa [progress.otherWork third same]

/-- Taking one step from a cell that is not zero. -/
theorem Sound.decrease (sound : Sound project scale api mrs project.missions timeMatrix)
    {agent : A} (agentMem : agent ∈ mrs) {mission : Miss} (missionMem : mission ∈ project.missions)
    (positive : 0 < timeMatrix.getValue agent mission)
    (excess : (project.mission mission).getAmountOfWork +
      valueStep project scale * performance api mission agent ≤
        timeMatrix.getWorkDone (performance api) mission) :
    Sound project scale api mrs project.missions
        (timeMatrix.incValue agent mission (-valueStep project scale)) ∧
      (timeMatrix.incValue agent mission (-valueStep project scale)).getSumAgent agent =
        timeMatrix.getSumAgent agent - valueStep project scale := by
  have agentMem' : agent ∈ timeMatrix.agents := sound.agents_eq ▸ agentMem
  have missionMem' : mission ∈ timeMatrix.missions := sound.missions_eq ▸ missionMem
  have step := regular.valueStep_pos
  rcases sound.grid (timeMatrix.agents.idxOf agent) (timeMatrix.missions.idxOf mission) with
    ⟨_ | steps, cell⟩
  · rw [AgentMissionMatrix.getValue, cell] at positive
    simp at positive
  have nonneg : 0 ≤ timeMatrix.getValue agent mission + -valueStep project scale := by
    rw [AgentMissionMatrix.getValue, cell]
    push_cast
    have : 0 ≤ (steps : K) * valueStep project scale := by positivity
    linarith
  refine ⟨⟨sound.agents_eq, sound.missions_eq, ?_, ?_, ?_⟩, ?_⟩
  · intro row column
    rw [AgentMissionMatrix.data_incValue nonneg]
    split
    · rename_i here
      refine ⟨steps, ?_⟩
      rw [here.1, here.2, cell]
      push_cast
      ring
    · simpa using sound.grid row column
  · intro other otherMem third thirdMem later
    rw [AgentMissionMatrix.incValue,
      AgentMissionMatrix.getValue_setValue agentMem' missionMem'] at later
    split at later
    · rename_i here
      rw [here.1, here.2]
      exact sound.capable agent agentMem mission missionMem positive
    · exact sound.capable other otherMem third thirdMem later
  · intro third thirdMem
    by_cases same : third = mission
    · subst same
      rw [AgentMissionMatrix.getWorkDone_incValue_self (sound.agents_eq ▸ regular.distinct)
        agentMem' missionMem' _ nonneg]
      linarith
    · rw [AgentMissionMatrix.incValue,
        AgentMissionMatrix.getWorkDone_setValue_of_ne agentMem' missionMem' _ same]
      exact sound.covered third thirdMem
  · rw [AgentMissionMatrix.getSumAgent_incValue_self missionMem' nonneg]
    ring

/-- A round keeps what holds of the matrix. It leaves loads as they are, or at least a step
below the largest one, and the load of the selected agent if it is not abandoned. -/
theorem Sound.round (sound : Sound project scale api mrs project.missions timeMatrix) {fuel : ℕ}
    {performed : Round A Miss K}
    (run : round project scale api fuel timeMatrix = .ok performed) :
    Sound project scale api mrs project.missions performed.after ∧
      (∀ other, performed.after.getSumAgent other = timeMatrix.getSumAgent other ∨
        performed.after.getSumAgent other ≤ largestLoad timeMatrix - valueStep project scale) ∧
      (performed.changed = true → performed.after.getSumAgent performed.agent ≤
        largestLoad timeMatrix - valueStep project scale) := by
  have step := regular.valueStep_pos
  have spec := round_spec step (sound.agents_eq ▸ regular.distinct) (sound.nonneg regular) run
  rcases spec.ending with ⟨state, progress, -, ending⟩
  have between := sound.handOut regular progress
  have loads := progress.load_cases
  rw [spec.load_eq] at loads
  cases ending with
  | improved changed made_up after =>
      have agentMem : performed.agent ∈ mrs := sound.agents_eq ▸ spec.agent_mem
      have missionMem : performed.mission ∈ project.missions := sound.missions_eq ▸ spec.mission_mem
      have excess : (project.mission performed.mission).getAmountOfWork +
          valueStep project scale * performance api performed.mission performed.agent ≤
            state.timeMatrix.getWorkDone (performance api) performed.mission := by
        -- the balance counts whole performances, but a step is at most one
        have surplus := sub_nonneg.mpr (sound.covered performed.mission missionMem)
        have kept := mul_nonneg (sub_nonneg.mpr regular.valueStep_le_one) surplus
        have made_up' := mul_nonneg step.le (neg_nonneg.mpr made_up)
        rw [progress.work, deltaWork]
        linarith
      have positive : 0 < state.timeMatrix.getValue performed.agent performed.mission :=
        progress.selected_value ▸ spec.positive
      rcases between.decrease regular agentMem missionMem positive excess with ⟨later, load⟩
      rw [progress.selected_load, spec.load_eq] at load
      rw [after]
      refine ⟨later, ?_, fun _ => load.le⟩
      intro other
      by_cases same : other = performed.agent
      · subst same
        exact Or.inr load.le
      · rw [AgentMissionMatrix.incValue, AgentMissionMatrix.getSumAgent_setValue_of_ne
          (progress.agents_eq ▸ spec.agent_mem) same]
        exact loads other
  | surplus abandoned _ _ after =>
      rw [after, spec.before]
      exact ⟨sound, fun _ => Or.inl rfl, by simp [abandoned]⟩
  | stuck abandoned _ _ after =>
      rw [after]
      exact ⟨between, loads, by simp [abandoned]⟩

theorem Sound.largestLoad_round
    (sound : Sound project scale api mrs project.missions timeMatrix) {fuel : ℕ}
    {performed : Round A Miss K}
    (run : EvenUpDownOpCostCalculator.round project scale api fuel timeMatrix = .ok performed) :
    largestLoad performed.after ≤ largestLoad timeMatrix := by
  rcases sound.round regular run with ⟨later, loads, -⟩
  apply largestLoad_le largestLoad_nonneg
  · intro other otherMem
    have := regular.valueStep_pos
    rcases loads other with same | below
    · rw [same]
      apply load_le_largestLoad
      rwa [sound.agents_eq, ← later.agents_eq]
    · linarith

omit regular in
theorem Reached.sound (regular : Regular project scale api mrs)
    {filled : AgentMissionMatrix A Miss K}
    (sound : Sound project scale api mrs project.missions filled)
    (reached : Reached project scale api filled timeMatrix) :
    Sound project scale api mrs project.missions timeMatrix := by
  induction reached with
  | filled => exact sound
  | improved _ run _ ih => exact (ih.round regular run).1

omit regular in
/-- Once the work has been filled in, every round keeps all work covered and all cells on the
grid of the value step, and does not increase the largest load. -/
theorem rounds_sound (regular : Regular project scale api mrs)
    {filled : AgentMissionMatrix A Miss K}
    (fills : fillWork project scale api mrs project.missions
      (AgentMissionMatrix.new mrs project.missions) = .ok filled) :
    ((∀ mission ∈ project.missions, (project.mission mission).getAmountOfWork ≤
          filled.getWorkDone (performance api) mission) ∧
        OnGrid project scale filled) ∧
      ∀ timeMatrix, Reached project scale api filled timeMatrix →
        ∀ fuel performed, round project scale api fuel timeMatrix = .ok performed →
          (∀ mission ∈ project.missions, (project.mission mission).getAmountOfWork ≤
              performed.after.getWorkDone (performance api) mission) ∧
            OnGrid project scale performed.after ∧
            largestLoad performed.after ≤ largestLoad timeMatrix := by
  have sound := fillWork_sound regular (List.Subset.refl _)
    (sound_new project scale api mrs) fills
  rw [List.nil_append] at sound
  refine ⟨⟨sound.covered, sound.grid⟩, ?_⟩
  intro timeMatrix reached fuel performed run
  have before := reached.sound regular sound
  have later := (before.round regular run).1
  exact ⟨later.covered, later.grid, before.largestLoad_round regular run⟩

end Soundness

/-- Two mowers with any missions of the grass trimming project. -/
theorem regular_mowers (missions : List GrassMission) :
    Regular { grassTrimmingProject 100 1 with missions := missions } 0 mowersApi [0, 1] where
  distinct := by decide
  energy_pos := by decide +kernel
  performance_nonneg mission _ := by cases mission <;> decide +kernel
  work_nonneg mission _ := by
    change 0 ≤ ((grassTrimmingProject 100 1).mission mission).getAmountOfWork
    cases mission <;> decide +kernel
  nearZero_pos := by
    change 0 < (grassTrimmingProject 100 1).config.nearZero
    decide +kernel
  nearZero_le := by
    change (grassTrimmingProject 100 1).config.nearZero ≤ 1 / (10 ^ 0 : ℕ)
    decide +kernel

theorem rounds_sound_mowers :
    ∃ filled, fillWork (grassTrimmingProject 100 1) 0 mowersApi [0, 1] [.mowing, .watching]
        (AgentMissionMatrix.new [0, 1] [.mowing, .watching]) = .ok filled ∧
      ∀ fuel performed, round (grassTrimmingProject 100 1) 0 mowersApi fuel filled = .ok performed →
        OnGrid (grassTrimmingProject 100 1) 0 performed.after ∧
          largestLoad performed.after ≤ largestLoad filled := by
  have fills : (fillWork (grassTrimmingProject 100 1) 0 mowersApi [0, 1] [.mowing, .watching]
      (AgentMissionMatrix.new [0, 1] [.mowing, .watching])).isOk = true := by decide +kernel
  cases run : fillWork (grassTrimmingProject 100 1) 0 mowersApi [0, 1] [.mowing, .watching]
      (AgentMissionMatrix.new [0, 1] [.mowing, .watching]) with
  | error failure => simp [run, Except.isOk, Except.toBool] at fills
  | ok filled =>
      refine ⟨filled, rfl, fun fuel performed performedRun => ?_⟩
      exact ((rounds_sound (regular_mowers [.mowing, .watching]) run).2 filled .filled fuel
        performed performedRun).2

end EvenUpDownOpCostCalculator

end MrsOptimization
