import MrsOptimization.Heuristic.CommonTime

/-!
# The time to cover an area

`AreaCoverageMission` measures its work by the length of the path over the area and
the performance of an agent by the area that it covers in a unit of time. Their
quotient divides by the width of the work device twice. `areaCoverage_time_iff`
says when rounding makes up for the difference.
-/

namespace MrsOptimization

namespace AverageOpCostCalculator

section Rounding

variable {K : Type} [Field K] [LinearOrder K] [FloorRing K]

/-- No multiple of `10 ^ -scale` lies between the two values. -/
def RoundedAlike (scale : ℕ) (left right : K) : Prop :=
  ∀ steps : ℤ, left ≤ steps / (10 ^ scale : ℕ) ↔ right ≤ steps / (10 ^ scale : ℕ)

variable [IsStrictOrderedRing K] {scale : ℕ}

theorem ceilTo_le_iff {value : K} {steps : ℤ} :
    ceilTo scale value ≤ steps / (10 ^ scale : ℕ) ↔ value ≤ steps / (10 ^ scale : ℕ) := by
  constructor
  · exact (isLeast_ceilTo scale value).1.1.trans
  · intro above
    exact (isLeast_ceilTo scale value).2 ⟨above, steps, rfl⟩

theorem ceilTo_eq_iff {left right : K} :
    ceilTo scale left = ceilTo scale right ↔ RoundedAlike scale left right := by
  constructor
  · intro same steps
    rw [← ceilTo_le_iff, same, ceilTo_le_iff]
  · intro alike
    rcases (isLeast_ceilTo scale left).1.2 with ⟨leftSteps, leftEq⟩
    rcases (isLeast_ceilTo scale right).1.2 with ⟨rightSteps, rightEq⟩
    apply le_antisymm
    · rw [rightEq, ceilTo_le_iff, alike, ← rightEq]
      exact (isLeast_ceilTo scale right).1.1
    · rw [leftEq, ceilTo_le_iff, ← alike, ← leftEq]
      exact (isLeast_ceilTo scale left).1.1

/-- A negative value is rounded to a negative one. -/
theorem roundUp_neg {value : K} (negative : value < 0) : roundUp scale value < 0 := by
  have unit : (0 : K) < (10 ^ scale : ℕ) := by positivity
  have below : (⌊value * (10 ^ scale : ℕ)⌋ : K) < 0 :=
    (Int.floor_le _).trans_lt (mul_neg_of_neg_of_pos negative unit)
  rw [roundUp, if_neg (not_le.mpr negative)]
  exact div_neg_of_neg_of_pos below unit

/-- The matrix stores no negative time, so what it stores of the quotient is the time, rounded up,
if and only if that is not negative and the rounding makes up for the division. -/
theorem written_eq_roundUp_iff {time width : K} (positive : 0 < width) :
    (if 0 < roundUp scale (time / width) then roundUp scale (time / width) else 0) =
        roundUp scale time ↔
      0 ≤ time ∧ RoundedAlike scale (time / width) time := by
  by_cases nonneg : 0 ≤ time
  · have divided : 0 ≤ time / width := div_nonneg nonneg positive.le
    rw [roundUp_of_nonneg scale nonneg, roundUp_of_nonneg scale divided,
      AgentMissionMatrix.written_of_nonneg (ceilTo_nonneg scale divided), ceilTo_eq_iff]
    simp [nonneg]
  · simp only [nonneg, false_and, iff_false]
    intro same
    have stored : (0 : K) ≤
        if 0 < roundUp scale (time / width) then roundUp scale (time / width) else 0 := by
      split
      · rename_i above
        exact above.le
      · exact le_rfl
    rw [same] at stored
    exact stored.not_gt (roundUp_neg (not_le.mp nonneg))

end Rounding

section Coverage

variable {A Comp Miss K : Type} [DecidableEq Comp] [Field K] [LinearOrder K] [MathPow K]
  {project : Project Comp Miss K} {mis : Miss}
  {mobileBase workDevice : Comp}
  {areaSizeX areaSizeY workDensity mobileBaseSpeed workDeviceWidth : K}
  {mrs : List A} {components : A → List Comp}

section Quantities

variable (area : project.mission mis = AreaCoverageMission mobileBase workDevice areaSizeX
    areaSizeY workDensity mobileBaseSpeed workDeviceWidth)
  (carried : ∀ agent ∈ mrs, mobileBase ∈ components agent ∧ workDevice ∈ components agent)

include area carried

theorem performance_of_carried {agent : A} (agentMem : agent ∈ mrs) :
    performance (componentsApi project components) mis agent =
      mobileBaseSpeed * workDeviceWidth := by
  have both := carried agent agentMem
  simp [performance, componentsApi, Mission.performanceOf, area, AreaCoverageMission, both]

theorem totalPerformance_of_carried :
    totalPerformance (componentsApi project components) mrs mis =
      mrs.length * (mobileBaseSpeed * workDeviceWidth) := by
  have same : mrs.map (performance (componentsApi project components) mis) =
      List.replicate mrs.length (mobileBaseSpeed * workDeviceWidth) := by
    rw [← List.map_const']
    exact List.map_congr_left fun agent agentMem =>
      performance_of_carried area carried agentMem
  rw [totalPerformance, same, List.sum_replicate, nsmul_eq_mul]

/-- The quotient of work and performance is too small by another factor of the width. -/
theorem work_div_totalPerformance :
    (project.mission mis).getAmountOfWork /
        totalPerformance (componentsApi project components) mrs mis =
      areaSizeX * areaSizeY * workDensity /
        (mrs.length * mobileBaseSpeed * workDeviceWidth) / workDeviceWidth := by
  rw [totalPerformance_of_carried area carried, area]
  simp only [AreaCoverageMission, div_eq_mul_inv, mul_inv]
  ring

end Quantities

variable [DecidableEq A] [DecidableEq Miss] [FloorRing K]

omit [DecidableEq Comp] [MathPow K] in
/-- Every mission that has been processed has given its time to all agents able to perform it. -/
theorem getValue_of_fillTimes {api : AgentApi Id A Miss K} {scale : ℕ} {processed : List Miss}
    (known : ∀ other ∈ processed, other ∈ project.missions)
    {filled : AgentMissionMatrix A Miss K}
    (runs : (fillTimes project scale api mrs processed
      (AgentMissionMatrix.new mrs project.missions)).run = some filled)
    (misMem : mis ∈ processed) {agent : A} (agentMem : agent ∈ mrs)
    (able : 0 < performance api mis agent) :
    filled.getValue agent mis = agentTime api mrs project scale mis agent := by
  have nonzero : ∀ other ∈ processed, totalPerformance api mrs other ≠ 0 := by
    intro other otherMem zero
    rw [fillTimes_eq_none _ ⟨other, otherMem, zero⟩] at runs
    cases runs
  rcases fillTimes_eq_some api mrs project scale
    (rfl : (AgentMissionMatrix.new mrs project.missions).agents = mrs) known nonzero with
    ⟨reached, reachedRuns, -, -, values⟩
  have same : reached = filled := Option.some.inj (reachedRuns.symm.trans runs)
  rw [← same, values agent agentMem mis, if_pos ⟨misMem, able⟩]

variable [IsStrictOrderedRing K]

/-- All agents get the swept time, rounded up, if and only if there is no negative area and the
other factor of the width makes no difference to the rounding. -/
theorem areaCoverage_time_iff
    (area : project.mission mis = AreaCoverageMission mobileBase workDevice areaSizeX areaSizeY
      workDensity mobileBaseSpeed workDeviceWidth)
    (speed : 0 < mobileBaseSpeed) (width : 0 < workDeviceWidth) (nonempty : mrs ≠ [])
    (carried : ∀ agent ∈ mrs, mobileBase ∈ components agent ∧ workDevice ∈ components agent)
    {scale : ℕ} {processed : List Miss} (known : ∀ other ∈ processed, other ∈ project.missions)
    (misMem : mis ∈ processed) {filled : AgentMissionMatrix A Miss K}
    (runs : (fillTimes project scale (componentsApi project components) mrs processed
      (AgentMissionMatrix.new mrs project.missions)).run = some filled) :
    let sweptTime := areaSizeX * areaSizeY * workDensity /
      (mrs.length * mobileBaseSpeed * workDeviceWidth)
    (∀ agent ∈ mrs, filled.getValue agent mis = roundUp scale sweptTime) ↔
      0 ≤ areaSizeX * areaSizeY * workDensity ∧
        RoundedAlike scale (sweptTime / workDeviceWidth) sweptTime := by
  intro sweptTime
  have able : ∀ agent ∈ mrs, 0 < performance (componentsApi project components) mis agent := by
    intro agent agentMem
    rw [performance_of_carried area carried agentMem]
    exact mul_pos speed width
  have cell : ∀ agent ∈ mrs, filled.getValue agent mis =
      if 0 < roundUp scale (sweptTime / workDeviceWidth) then
        roundUp scale (sweptTime / workDeviceWidth)
      else 0 := by
    intro agent agentMem
    rw [getValue_of_fillTimes known runs misMem agentMem (able agent agentMem), agentTime,
      if_pos (able agent agentMem), missionTime, work_div_totalPerformance area carried]
  have agents : (0 : K) < mrs.length := by
    exact_mod_cast List.length_pos_of_ne_nil nonempty
  have rate : 0 < mrs.length * mobileBaseSpeed * workDeviceWidth :=
    mul_pos (mul_pos agents speed) width
  rcases List.exists_mem_of_ne_nil mrs nonempty with ⟨first, firstMem⟩
  have all : (∀ agent ∈ mrs, filled.getValue agent mis = roundUp scale sweptTime) ↔
      (if 0 < roundUp scale (sweptTime / workDeviceWidth) then
        roundUp scale (sweptTime / workDeviceWidth) else 0) = roundUp scale sweptTime := by
    constructor
    · intro same
      rw [← same first firstMem, cell first firstMem]
    · intro same agent agentMem
      rw [cell agent agentMem, same]
  have nonneg : 0 ≤ sweptTime ↔ 0 ≤ areaSizeX * areaSizeY * workDensity := by
    simp [sweptTime, le_div_iff₀ rate]
  rw [all, written_eq_roundUp_iff width, nonneg]

end Coverage

/-- The grass trimming project with a device of the given width, and mowing as its only mission.
-/
def lawnProject (width : ℚ) : Project GrassComponent GrassMission ℚ :=
  { grassTrimmingProject 100 1 with
    missions := [.mowing]
    mission := fun _ =>
      AreaCoverageMission .mobileBase .mowingMachine 100 100 (9 / 10) 2 width }

/-- A device of unit width covers the area in the swept time. -/
theorem areaCoverage_time_iff_lawn :
    ∃ filled : AgentMissionMatrix ℕ GrassMission ℚ, (fillTimes (lawnProject 1) 0
        (componentsApi (lawnProject 1) fun _ => [.mobileBase, .mowingMachine]) [0, 1] [.mowing]
        (AgentMissionMatrix.new [0, 1] (lawnProject 1).missions)).run = some filled ∧
      ∀ agent ∈ [0, 1], filled.getValue agent .mowing =
        roundUp 0 ((100 * 100 * (9 / 10) : ℚ) / ((([0, 1] : List ℕ).length : ℚ) * 2 * 1)) := by
  rcases fillTimes_eq_some
    (componentsApi (lawnProject 1) fun _ => [.mobileBase, .mowingMachine]) [0, 1]
    (lawnProject 1) 0
    (rfl : (AgentMissionMatrix.new [0, 1] (lawnProject 1).missions).agents = [0, 1])
    (by decide : ∀ mis ∈ [GrassMission.mowing], _) (by decide +kernel) with
    ⟨filled, runs, -⟩
  refine ⟨filled, runs, ?_⟩
  have iff := areaCoverage_time_iff (rfl : (lawnProject 1).mission .mowing = _) two_pos one_pos
    (List.cons_ne_nil 0 [1]) (fun _ _ => by decide) (by decide) (by decide) runs
  refine iff.mpr ⟨by norm_num, ?_⟩
  rw [div_one]
  exact fun _ => Iff.rfl

/-- A device of width 1.2 is taken to need 3125 instead of 3750. -/
theorem areaCoverage_time_grass :
    ∃ filled, (fillTimes (grassTrimmingProject 100 1) 0
        (componentsApi (grassTrimmingProject 100 1) fun _ => [.mobileBase, .mowingMachine]) [0]
        [.mowing] (AgentMissionMatrix.new [0] (grassTrimmingProject 100 1).missions)).run =
          some filled ∧
      filled.getValue 0 .mowing = 3125 ∧
      filled.getValue 0 .mowing ≠ roundUp 0 (100 * 100 * (9 / 10) / (1 * 2 * (12 / 10))) := by
  rcases fillTimes_eq_some
    (componentsApi (grassTrimmingProject 100 1) fun _ => [.mobileBase, .mowingMachine]) [0]
    (grassTrimmingProject 100 1) 0
    (rfl : (AgentMissionMatrix.new [0] (grassTrimmingProject 100 1).missions).agents = [0])
    (by decide : ∀ mis ∈ [GrassMission.mowing], _) (by decide +kernel) with
    ⟨filled, runs, -, -, values⟩
  have time : filled.getValue 0 .mowing = 3125 := by
    rw [values 0 (by decide)]
    decide +kernel
  refine ⟨filled, runs, time, ?_⟩
  rw [time]
  decide +kernel

end AverageOpCostCalculator

end MrsOptimization
