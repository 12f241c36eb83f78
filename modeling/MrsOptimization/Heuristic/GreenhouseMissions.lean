import MrsOptimization.Heuristic.AgentHeap
import MrsOptimization.Heuristic.Missions
import MrsOptimization.Library.ExactDouble
import MrsOptimization.Library.FilledMaps
import Mathlib.Tactic.FieldSimp
import Mathlib.Tactic.Positivity

/-!
# The greenhouse missions

The performance of an agent that works on plants is the reciprocal of the time it needs for
one, and of that time the part for moving is what the approach leaves of the interval
between plants. Nothing keeps the approach shorter than the interval, so the time, and
with it the performance, may be negative.
-/

namespace MrsOptimization

namespace Const

def familyCamera : String := "camera"
def familyPlatform : String := "platform"
def familyRanger : String := "ranger"
def familySpray : String := "spray"
def familyTank : String := "tank"
def propApproachDist : String := "approach-dist"
def propMaxSpeed : String := "max-speed"
def propMaxWeight : String := "max-weight"
def propTolerance : String := "tolerance"
def propSampleRate : String := "sample-rate"

end Const

/-- `GreenhouseMission`, with the work density it inherits from `Mission`. -/
structure GreenhouseMission (K : Type) where
  numOfRows : ℤ
  numOfPlants : ℤ
  numOfWorkCicles : ℤ
  requiredTolerance : K
  intervalPlants : K
  intervalRows : K
  maxAllowedSpeed : K
  workDensity : K

section Code

variable {Comp K : Type} [Field K] [LinearOrder K]
  (getDoubleProperty : Comp → String → Option K) (mission : GreenhouseMission K)

/-- The body that the missions on plants share: the agent needs the given device, and has to move
as far for a plant as the given distance tells from the approach distance. A property that is
missing makes `getDoubleProperty` fail. -/
def plantPerformance (device : String) (distance : K → ExactDouble K) (workTime : K)
    (compMap : String → Option Comp) : Option (ExactDouble K) :=
  match compMap Const.familyPlatform, compMap Const.familyRanger, compMap device with
  | some platform, some ranger, some _ => do
      let tolerance ← getDoubleProperty ranger Const.propTolerance
      if mission.requiredTolerance < tolerance then
        return .finite 0
      else
        let approachDistance ← getDoubleProperty platform Const.propApproachDist
        let maxSpeed ← getDoubleProperty platform Const.propMaxSpeed
        let robotMovingSpeed := min mission.maxAllowedSpeed maxSpeed
        let sampleRate ← getDoubleProperty ranger Const.propSampleRate
        let movingTime := (distance approachDistance).div (.finite robotMovingSpeed)
        let positioningTime :=
          ExactDouble.divide approachDistance (mission.requiredTolerance * sampleRate)
        return (ExactDouble.finite 1).div ((movingTime.add positioningTime).add (.finite workTime))
  | _, _, _ => return .finite 0

namespace GreenhouseInspectionMission

def getAgentPerformance (inspectionTime : K) :
    (String → Option Comp) → Option (ExactDouble K) :=
  plantPerformance getDoubleProperty mission Const.familyCamera
    (fun approachDistance => .finite (mission.intervalPlants - approachDistance)) inspectionTime

end GreenhouseInspectionMission

namespace GreenhouseSprayingMission

def getAgentPerformance (sprayingTime : K) :
    (String → Option Comp) → Option (ExactDouble K) :=
  plantPerformance getDoubleProperty mission Const.familySpray
    (fun approachDistance =>
      ExactDouble.divide (mission.intervalPlants - approachDistance) mission.workDensity)
    sprayingTime

end GreenhouseSprayingMission

namespace GreenhouseTransportingMission

def getAgentPerformance (volumeTransferSpeed distanceToStorage : K)
    (compMap : String → Option Comp) : Option (ExactDouble K) :=
  match compMap Const.familyPlatform, compMap Const.familyTank with
  | some platform, some _ => do
      let agentVolume ← getDoubleProperty platform Const.propMaxWeight
      let maxSpeed ← getDoubleProperty platform Const.propMaxSpeed
      let robotMovingSpeed := min mission.maxAllowedSpeed maxSpeed
      let refuelingTime := ExactDouble.divide agentVolume volumeTransferSpeed
      let movingFromStorageTime := ExactDouble.divide distanceToStorage robotMovingSpeed
      let movingInGreenhouseTime := ExactDouble.divide
        ((5 : ℕ) / (10 : ℕ) * (mission.numOfPlants * mission.intervalPlants +
          mission.numOfRows * mission.intervalRows)) robotMovingSpeed
      return (ExactDouble.finite agentVolume).div
        ((refuelingTime.add movingFromStorageTime).add movingInGreenhouseTime)
  | _, _ => return .finite 0

end GreenhouseTransportingMission

end Code

section Specification

variable {Comp K : Type} [Field K] [LinearOrder K]

/-- The performance is a number, and not negative. -/
def NonNegative (performance : Option (ExactDouble K)) : Prop :=
  ∃ value, performance = some (.finite value) ∧ 0 ≤ value

/-- The properties of an agent's platform and ranger are set, and positive. -/
structure PropertiesPositive (getDoubleProperty : Comp → String → Option K)
    (compMap : String → Option Comp) : Prop where
  platform : ∀ comp, compMap Const.familyPlatform = some comp →
    ∀ key ∈ [Const.propApproachDist, Const.propMaxSpeed, Const.propMaxWeight],
      ∃ value, getDoubleProperty comp key = some value ∧ 0 < value
  ranger : ∀ comp, compMap Const.familyRanger = some comp →
    ∀ key ∈ [Const.propTolerance, Const.propSampleRate],
      ∃ value, getDoubleProperty comp key = some value ∧ 0 < value

/-- If the agent has what the work needs and is precise enough, its approach distance is shorter
than the interval between plants and the way it could move, at the given share of the plants, in
the time it spends on one. -/
def ApproachFits (getDoubleProperty : Comp → String → Option K) (mission : GreenhouseMission K)
    (device : String) (density workTime : K) (compMap : String → Option Comp) : Prop :=
  ∀ platform ranger tool, compMap Const.familyPlatform = some platform →
    compMap Const.familyRanger = some ranger → compMap device = some tool →
    ∀ tolerance approachDistance maxSpeed sampleRate,
      getDoubleProperty ranger Const.propTolerance = some tolerance →
      getDoubleProperty platform Const.propApproachDist = some approachDistance →
      getDoubleProperty platform Const.propMaxSpeed = some maxSpeed →
      getDoubleProperty ranger Const.propSampleRate = some sampleRate →
      tolerance ≤ mission.requiredTolerance →
      approachDistance < mission.intervalPlants +
        density * min mission.maxAllowedSpeed maxSpeed *
          (approachDistance / (mission.requiredTolerance * sampleRate) + workTime)

end Specification

section Results

variable {Comp K : Type} [Field K] [LinearOrder K] {getDoubleProperty : Comp → String → Option K}
  {mission : GreenhouseMission K} {compMap : String → Option Comp}

theorem nonNegative_zero : NonNegative (some (.finite (0 : K))) := ⟨0, rfl, le_rfl⟩

variable [IsStrictOrderedRing K]

/-- The time for one plant is positive if and only if the approach is short enough. -/
theorem time_pos_iff {interval approach density speed positioning work : K} (dense : 0 < density)
    (fast : 0 < speed) :
    0 < (interval - approach) / density / speed + positioning + work ↔
      approach < interval + density * speed * (positioning + work) := by
  have moving : (interval - approach) / density / speed + positioning + work =
      (interval + density * speed * (positioning + work) - approach) / (density * speed) := by
    field_simp
    ring
  rw [moving, div_pos_iff_of_pos_right (mul_pos dense fast), sub_pos]

omit [IsStrictOrderedRing K] in
/-- An agent that lacks something is not able to work on plants. -/
theorem plantPerformance_unequipped {device : String} {distance : K → ExactDouble K} {workTime : K}
    (unequipped : ¬∃ platform ranger tool, compMap Const.familyPlatform = some platform ∧
      compMap Const.familyRanger = some ranger ∧ compMap device = some tool) :
    plantPerformance getDoubleProperty mission device distance workTime compMap =
      some (.finite 0) := by
  rw [plantPerformance]
  split
  · rename_i platform ranger tool hasPlatform hasRanger hasTool
    exact absurd ⟨platform, ranger, tool, hasPlatform, hasRanger, hasTool⟩ unequipped
  · rfl

omit [IsStrictOrderedRing K] in
/-- Whether the approach fits, in terms of the properties of an agent that has everything. -/
theorem approachFits_iff {device : String} {density workTime tolerance approach maxSpeed
    sampleRate : K} {platform ranger tool : Comp}
    (hasPlatform : compMap Const.familyPlatform = some platform)
    (hasRanger : compMap Const.familyRanger = some ranger) (hasTool : compMap device = some tool)
    (toleranceEq : getDoubleProperty ranger Const.propTolerance = some tolerance)
    (approachEq : getDoubleProperty platform Const.propApproachDist = some approach)
    (maxSpeedEq : getDoubleProperty platform Const.propMaxSpeed = some maxSpeed)
    (sampleRateEq : getDoubleProperty ranger Const.propSampleRate = some sampleRate) :
    ApproachFits getDoubleProperty mission device density workTime compMap ↔
      (tolerance ≤ mission.requiredTolerance → approach < mission.intervalPlants +
        density * min mission.maxAllowedSpeed maxSpeed *
          (approach / (mission.requiredTolerance * sampleRate) + workTime)) := by
  constructor
  · intro fits
    exact fits platform ranger tool hasPlatform hasRanger hasTool tolerance approach maxSpeed
      sampleRate toleranceEq approachEq maxSpeedEq sampleRateEq
  · intro fits _ _ _ isPlatform isRanger _ _ _ _ _ isTolerance isApproach isMaxSpeed isSampleRate
    rcases Option.some.inj (hasPlatform.symm.trans isPlatform) with rfl
    rcases Option.some.inj (hasRanger.symm.trans isRanger) with rfl
    rcases Option.some.inj (toleranceEq.symm.trans isTolerance) with rfl
    rcases Option.some.inj (approachEq.symm.trans isApproach) with rfl
    rcases Option.some.inj (maxSpeedEq.symm.trans isMaxSpeed) with rfl
    rcases Option.some.inj (sampleRateEq.symm.trans isSampleRate) with rfl
    exact fits

theorem plantPerformance_nonneg_iff (positive : PropertiesPositive getDoubleProperty compMap)
    {device : String} {distance : K → ExactDouble K} {density : K} (workTime : K)
    (distanceEq : ∀ approach,
      distance approach = .finite ((mission.intervalPlants - approach) / density))
    (dense : 0 < density) (tolerant : 0 < mission.requiredTolerance)
    (allowed : 0 < mission.maxAllowedSpeed) :
    NonNegative (plantPerformance getDoubleProperty mission device distance workTime compMap) ↔
      ApproachFits getDoubleProperty mission device density workTime compMap := by
  by_cases equipped : ∃ platform ranger tool, compMap Const.familyPlatform = some platform ∧
      compMap Const.familyRanger = some ranger ∧ compMap device = some tool
  · rcases equipped with ⟨platform, ranger, tool, hasPlatform, hasRanger, hasTool⟩
    rcases positive.ranger ranger hasRanger Const.propTolerance (by simp) with
      ⟨tolerance, toleranceEq, -⟩
    rcases positive.ranger ranger hasRanger Const.propSampleRate (by simp) with
      ⟨sampleRate, sampleRateEq, sampling⟩
    rcases positive.platform platform hasPlatform Const.propApproachDist (by simp) with
      ⟨approach, approachEq, -⟩
    rcases positive.platform platform hasPlatform Const.propMaxSpeed (by simp) with
      ⟨maxSpeed, maxSpeedEq, moves⟩
    have fast : 0 < min mission.maxAllowedSpeed maxSpeed := lt_min allowed moves
    rw [approachFits_iff hasPlatform hasRanger hasTool toleranceEq approachEq maxSpeedEq
      sampleRateEq, plantPerformance, hasPlatform, hasRanger, hasTool]
    simp only [toleranceEq, approachEq, maxSpeedEq, sampleRateEq, Option.bind_eq_bind,
      Option.bind_some, Option.pure_def]
    by_cases coarse : mission.requiredTolerance < tolerance
    · rw [if_pos coarse]
      exact iff_of_true nonNegative_zero fun fine => absurd fine coarse.not_ge
    · rw [if_neg coarse, distanceEq, ExactDouble.div_finite,
        ExactDouble.divide_of_ne_zero _ fast.ne',
        ExactDouble.divide_of_ne_zero _ (mul_pos tolerant sampling).ne', ExactDouble.add_finite,
        ExactDouble.add_finite, ExactDouble.div_finite]
      simp only [NonNegative, Option.some.injEq, ExactDouble.divide_one_nonneg_iff,
        time_pos_iff dense fast, not_lt.mp coarse, true_imp_iff]
  · rw [plantPerformance_unequipped equipped]
    refine iff_of_true nonNegative_zero ?_
    intro platform ranger tool hasPlatform hasRanger hasTool
    exact absurd ⟨platform, ranger, tool, hasPlatform, hasRanger, hasTool⟩ equipped

/-- Transporting never takes a negative time. -/
theorem transporting_nonneg (positive : PropertiesPositive getDoubleProperty compMap)
    {volumeTransferSpeed distanceToStorage : K} (transfers : 0 < volumeTransferSpeed)
    (away : 0 < distanceToStorage) (allowed : 0 < mission.maxAllowedSpeed)
    (plants : 0 < mission.numOfPlants) (intervalPlants : 0 < mission.intervalPlants)
    (rows : 0 < mission.numOfRows) (intervalRows : 0 < mission.intervalRows) :
    NonNegative (GreenhouseTransportingMission.getAgentPerformance getDoubleProperty mission
      volumeTransferSpeed distanceToStorage compMap) := by
  rw [GreenhouseTransportingMission.getAgentPerformance]
  split
  · rename_i platform tank hasPlatform hasTank
    rcases positive.platform platform hasPlatform Const.propMaxWeight (by simp) with
      ⟨volume, volumeEq, carries⟩
    rcases positive.platform platform hasPlatform Const.propMaxSpeed (by simp) with
      ⟨maxSpeed, maxSpeedEq, moves⟩
    have fast : 0 < min mission.maxAllowedSpeed maxSpeed := lt_min allowed moves
    have plants' : (0 : K) < mission.numOfPlants := by exact_mod_cast plants
    have rows' : (0 : K) < mission.numOfRows := by exact_mod_cast rows
    have inside : 0 < ((5 : ℕ) / (10 : ℕ) : K) * (mission.numOfPlants * mission.intervalPlants +
        mission.numOfRows * mission.intervalRows) := by positivity
    have time : 0 < volume / volumeTransferSpeed +
        distanceToStorage / min mission.maxAllowedSpeed maxSpeed +
        (5 : ℕ) / (10 : ℕ) * (mission.numOfPlants * mission.intervalPlants +
          mission.numOfRows * mission.intervalRows) / min mission.maxAllowedSpeed maxSpeed := by
      positivity
    simp only [volumeEq, maxSpeedEq, Option.bind_eq_bind, Option.bind_some, Option.pure_def]
    rw [ExactDouble.divide_of_ne_zero _ transfers.ne', ExactDouble.divide_of_ne_zero _ fast.ne',
      ExactDouble.divide_of_ne_zero _ fast.ne', ExactDouble.add_finite, ExactDouble.add_finite,
      ExactDouble.div_finite, ExactDouble.divide_of_ne_zero _ time.ne']
    exact ⟨_, rfl, (div_pos carries time).le⟩
  · exact nonNegative_zero

/-- For an agent with positive properties the missions on plants have a performance that is a
number and not negative if and only if its approach distance fits; transporting always has. -/
theorem getAgentPerformance_nonneg_iff
    (positive : PropertiesPositive getDoubleProperty compMap) :
    (∀ (mission : GreenhouseMission K) (inspectionTime : K),
      0 < mission.requiredTolerance → 0 < mission.maxAllowedSpeed →
        (NonNegative (GreenhouseInspectionMission.getAgentPerformance getDoubleProperty mission
            inspectionTime compMap) ↔
          ApproachFits getDoubleProperty mission Const.familyCamera 1 inspectionTime compMap)) ∧
    (∀ (mission : GreenhouseMission K) (sprayingTime : K),
      0 < mission.requiredTolerance → 0 < mission.maxAllowedSpeed → 0 < mission.workDensity →
        (NonNegative (GreenhouseSprayingMission.getAgentPerformance getDoubleProperty mission
            sprayingTime compMap) ↔
          ApproachFits getDoubleProperty mission Const.familySpray mission.workDensity sprayingTime
            compMap)) ∧
    ∀ (mission : GreenhouseMission K) (volumeTransferSpeed distanceToStorage : K),
      0 < volumeTransferSpeed → 0 < distanceToStorage → 0 < mission.maxAllowedSpeed →
      0 < mission.numOfPlants → 0 < mission.intervalPlants → 0 < mission.numOfRows →
      0 < mission.intervalRows →
        NonNegative (GreenhouseTransportingMission.getAgentPerformance getDoubleProperty mission
          volumeTransferSpeed distanceToStorage compMap) := by
  refine ⟨fun mission inspectionTime tolerant allowed => ?_,
    fun mission sprayingTime tolerant allowed dense => ?_, ?_⟩
  · refine plantPerformance_nonneg_iff positive inspectionTime (fun approach => ?_) one_pos tolerant
      allowed
    rw [div_one]
  · refine plantPerformance_nonneg_iff positive sprayingTime (fun approach => ?_) dense tolerant
      allowed
    exact ExactDouble.divide_of_ne_zero _ dense.ne'
  · intro mission volumeTransferSpeed distanceToStorage transfers away allowed plants intervalPlants
      rows intervalRows
    exact transporting_nonneg positive transfers away allowed plants intervalPlants rows
      intervalRows

end Results

section Classes

variable {Comp K : Type} [Field K] [LinearOrder K]

/-- The number that a performance is. The code has no such step: a performance there may also be
infinite, and a missing property fails. Missions below are for agents with neither. -/
def performanceValue : Option (ExactDouble K) → K
  | some (.finite value) => value
  | _ => 0

def GreenhouseInspectionMission (getDoubleProperty : Comp → String → Option K)
    (mission : GreenhouseMission K) (inspectionTime : K) : Mission Comp K where
  getAgentPerformance := .ofComponentMap fun compMap => performanceValue
    (GreenhouseInspectionMission.getAgentPerformance getDoubleProperty mission inspectionTime
      compMap)
  getAmountOfWork := mission.numOfWorkCicles * mission.numOfRows * mission.numOfPlants

end Classes

section Greenhouse

inductive GreenhouseComponent where
  | platformLight
  | camera
  | rangerLaser
  | rangerRadio
  deriving DecidableEq

namespace GreenhouseComponent

def family : GreenhouseComponent → String
  | .platformLight => Const.familyPlatform
  | .camera => Const.familyCamera
  | .rangerLaser => Const.familyRanger
  | .rangerRadio => Const.familyRanger

/-- The platform approaches a plant from the given distance. -/
def getDoubleProperty (approachDistance : ℚ) : GreenhouseComponent → String → Option ℚ
  | .platformLight, key =>
      if key = Const.propApproachDist then some approachDistance
      else if key = Const.propMaxSpeed then some 3
      else if key = Const.propMaxWeight then some 10
      else none
  | .camera, _ => none
  | .rangerLaser, key =>
      if key = Const.propTolerance then some (5 / 100)
      else if key = Const.propSampleRate then some 100
      else none
  | .rangerRadio, key =>
      if key = Const.propTolerance then some (5 / 10)
      else if key = Const.propSampleRate then some 100
      else none

end GreenhouseComponent

/-- One round through 80 rows of 150 plants. -/
def greenhouse : GreenhouseMission ℚ where
  numOfRows := 80
  numOfPlants := 150
  numOfWorkCicles := 1
  requiredTolerance := 2 / 10
  intervalPlants := 1
  intervalRows := 15 / 10
  maxAllowedSpeed := 999
  workDensity := 4 / 10

/-- The inspection of the greenhouse, with two rangers to choose from. -/
def greenhouseProject (approachDistance : ℚ) : Project GreenhouseComponent Unit ℚ where
  components := [.platformLight, .camera, .rangerLaser, .rangerRadio]
  missions := [()]
  component comp := ⟨comp.family, 100, 1, 1, []⟩
  mission _ := GreenhouseInspectionMission
    (GreenhouseComponent.getDoubleProperty approachDistance) greenhouse 1
  config := Config.initial
  costModel := CostModel.initial

/-- A component stands in the map under its own family. -/
theorem family_of_componentMap {Comp Miss K : Type} [Field K] [LinearOrder K] [MathPow K]
    (project : Project Comp Miss K) (components : List Comp) {key : String} {comp : Comp}
    (found : calculateValue project .componentMap components key = some comp) :
    (project.component comp).family = key :=
  ((isChoice_fill (fun comp => (project.component comp).family) components).of_some key comp
    found).2

variable {approachDistance : ℚ} {components : List GreenhouseComponent}

theorem platform_of_componentMap {platform : GreenhouseComponent}
    (found : calculateValue (greenhouseProject approachDistance) .componentMap components
      Const.familyPlatform = some platform) : platform = .platformLight := by
  have own : platform.family = Const.familyPlatform := family_of_componentMap _ _ found
  cases platform with
  | platformLight => rfl
  | _ => exact absurd own (by decide)

theorem ranger_of_componentMap {ranger : GreenhouseComponent}
    (found : calculateValue (greenhouseProject approachDistance) .componentMap components
      Const.familyRanger = some ranger) : ranger = .rangerLaser ∨ ranger = .rangerRadio := by
  have own : ranger.family = Const.familyRanger := family_of_componentMap _ _ found
  cases ranger with
  | rangerLaser => exact .inl rfl
  | rangerRadio => exact .inr rfl
  | _ => exact absurd own (by decide)

/-- The properties of whatever an agent of the greenhouse is made of. -/
theorem componentMap_positive (positive : 0 < approachDistance) :
    PropertiesPositive (GreenhouseComponent.getDoubleProperty approachDistance)
      (calculateValue (greenhouseProject approachDistance) .componentMap components) := by
  constructor
  · intro comp found key keyMem
    obtain rfl := platform_of_componentMap found
    simp only [List.mem_cons, List.not_mem_nil, or_false] at keyMem
    rcases keyMem with rfl | rfl | rfl
    · exact ⟨approachDistance, rfl, positive⟩
    · exact ⟨3, rfl, by norm_num⟩
    · exact ⟨10, rfl, by norm_num⟩
  · intro comp found key keyMem
    simp only [List.mem_cons, List.not_mem_nil, or_false] at keyMem
    rcases ranger_of_componentMap found with rfl | rfl
    · rcases keyMem with rfl | rfl
      · exact ⟨5 / 100, rfl, by norm_num⟩
      · exact ⟨100, rfl, by norm_num⟩
    · rcases keyMem with rfl | rfl
      · exact ⟨5 / 10, rfl, by norm_num⟩
      · exact ⟨100, rfl, by norm_num⟩

/-- With an approach no longer than the interval between plants, the performance of every agent
of the greenhouse is a number: no property is missing, and nothing is divided by zero. -/
theorem nonNegative_greenhouse (positive : 0 < approachDistance) (short : approachDistance ≤ 1) :
    NonNegative (GreenhouseInspectionMission.getAgentPerformance
      (GreenhouseComponent.getDoubleProperty approachDistance) greenhouse 1
      (calculateValue (greenhouseProject approachDistance) .componentMap components)) := by
  refine (plantPerformance_nonneg_iff (componentMap_positive positive) 1 (fun approach => ?_)
    one_pos (by norm_num [greenhouse]) (by norm_num [greenhouse])).mpr ?_
  · rw [div_one]
  intro platform ranger tool isPlatform isRanger _ tolerance approach maxSpeed sampleRate _
    isApproach isMaxSpeed isSampleRate _
  obtain rfl := platform_of_componentMap isPlatform
  obtain rfl : approachDistance = approach := Option.some.inj isApproach
  obtain rfl : 3 = maxSpeed := Option.some.inj isMaxSpeed
  have rate : sampleRate = 100 := by
    rcases ranger_of_componentMap isRanger with rfl | rfl <;>
      exact (Option.some.inj isSampleRate).symm
  subst rate
  norm_num [greenhouse]
  linarith

/-- The component map of an agent with a platform, a camera and a laser ranger. -/
def inspector (approachDistance : ℚ) : String → Option GreenhouseComponent :=
  calculateValue (greenhouseProject approachDistance) .componentMap
    [.platformLight, .camera, .rangerLaser]

/-- A platform that approaches plants from 20 centimetres. -/
theorem getAgentPerformance_nonneg_iff_inspector :
    NonNegative (GreenhouseInspectionMission.getAgentPerformance
      (GreenhouseComponent.getDoubleProperty (1 / 5)) greenhouse 1 (inspector (1 / 5))) := by
  apply ((getAgentPerformance_nonneg_iff (componentMap_positive (by norm_num))).1 greenhouse 1
    (by norm_num [greenhouse]) (by norm_num [greenhouse])).mpr
  intro platform ranger tool isPlatform isRanger _ tolerance approach maxSpeed sampleRate _
    isApproach isMaxSpeed isSampleRate _
  obtain rfl : GreenhouseComponent.platformLight = platform := Option.some.inj isPlatform
  obtain rfl : GreenhouseComponent.rangerLaser = ranger := Option.some.inj isRanger
  obtain rfl : 1 / 5 = approach := Option.some.inj isApproach
  obtain rfl : 3 = maxSpeed := Option.some.inj isMaxSpeed
  obtain rfl : 100 = sampleRate := Option.some.inj isSampleRate
  norm_num [greenhouse]

/-- A platform that approaches plants from 100 metres, which stand one metre apart. -/
theorem not_nonNegative_inspector :
    PropertiesPositive (GreenhouseComponent.getDoubleProperty 100) (inspector 100) ∧
      ¬NonNegative (GreenhouseInspectionMission.getAgentPerformance
        (GreenhouseComponent.getDoubleProperty 100) greenhouse 1 (inspector 100)) := by
  have positive : PropertiesPositive (GreenhouseComponent.getDoubleProperty 100) (inspector 100) :=
    componentMap_positive (by norm_num)
  refine ⟨positive, fun nonneg => ?_⟩
  have fits : ApproachFits (GreenhouseComponent.getDoubleProperty 100) greenhouse
      Const.familyCamera 1 1 (inspector 100) := by
    refine (plantPerformance_nonneg_iff positive 1 (fun approach => ?_) one_pos
      (by norm_num [greenhouse]) (by norm_num [greenhouse])).mp nonneg
    rw [div_one]
  have shorter := fits .platformLight .rangerLaser .camera rfl rfl rfl (5 / 100) 100 3 100 rfl rfl
    rfl rfl (by norm_num [greenhouse])
  norm_num [greenhouse] at shorter

end Greenhouse

end MrsOptimization
