import MrsOptimization.Heuristic.Objects
import Mathlib.Data.Rat.Floor

/-!
# Missions and the grass trimming project

Mission classes for both ways of reading an agent, and a project in which a
mobile base mows a square area. The project has the coefficients and the settings
of a project whose file sets none, and serves as the concrete input of the results
on the optimizer.
-/

namespace MrsOptimization

section Classes

variable {Comp K : Type}

def AreaCoverageMission [DecidableEq Comp] [Field K] (mobileBase workDevice : Comp)
    (areaSizeX areaSizeY workDensity mobileBaseSpeed workDeviceWidth : K) : Mission Comp K where
  getAgentPerformance := .ofComponents fun components =>
    if components.contains mobileBase && components.contains workDevice then
      mobileBaseSpeed * workDeviceWidth
    else 0
  getAmountOfWork := areaSizeX * areaSizeY / workDeviceWidth * workDensity

/-- `avgDist` stands for the cached average distance to the target. -/
def TransportationMission [DecidableEq Comp] [Field K] (mobileBase loader : Comp)
    (areaSizeX areaSizeY workDensity mobileBaseSpeed avgDist : K) : Mission Comp K where
  getAgentPerformance := .ofComponents fun components =>
    if components.contains mobileBase && components.contains loader then mobileBaseSpeed else 0
  getAmountOfWork := areaSizeX * areaSizeY * workDensity * avgDist

def DummyMission [Field K] (families : List String) : Mission Comp K where
  getAgentPerformance := .ofComponentMap fun componentMap =>
    if families.any fun family => (componentMap family).isSome then 1 else 0
  getAmountOfWork := 1

end Classes

inductive GrassComponent where
  | mobileBase
  | mowingMachine
  | camera
  deriving DecidableEq

inductive GrassMission where
  | mowing
  | watching
  deriving DecidableEq

/-- A square area of the given side; the camera is of the given complexity. -/
def grassTrimmingProject (side complexity : ℚ) : Project GrassComponent GrassMission ℚ where
  components := [.mobileBase, .mowingMachine, .camera]
  missions := [.mowing, .watching]
  component
    | .mobileBase => ⟨"wheeled car-like", 60, 4, 1, []⟩
    | .mowingMachine => ⟨"1-DOF manipulator", 40, 5, 1, [⟨.dependAny, [.mobileBase]⟩]⟩
    | .camera => ⟨"Camera", 70, 1, complexity, [⟨.exclude, [.mowingMachine]⟩]⟩
  mission
    | .mowing => AreaCoverageMission .mobileBase .mowingMachine side side (9 / 10) 2 (12 / 10)
    | .watching => DummyMission ["Camera"]
  config := Config.initial
  costModel := CostModel.initial

end MrsOptimization
