import Mathlib.Analysis.SpecialFunctions.Pow.Real

/-!
# The object model of the heuristic optimizer

The records of `phd.mrs.heuristic.object` that the optimizer computes with.
Components and missions are compared by identity in the source, so a project
lists references (`Comp`, `Miss`) and maps each reference to its record; a
constraint graph may then be cyclic, as the shipped greenhouse project's is.

Doubles are values of an ordered field `K`. `Math.pow` is not determined by the
field operations and is taken from the class `MathPow`.
-/

namespace MrsOptimization

/-- `java.lang.Math.pow` on the number type of the model. -/
class MathPow (K : Type) where
  pow : K → K → K

noncomputable instance : MathPow ℝ := ⟨fun x k => x ^ k⟩

/-- On the rationals only integral exponents are meaningful; all shipped coefficients have one. -/
instance : MathPow ℚ := ⟨fun x k => x ^ k.num⟩

structure AbstractCoefs (K : Type) where
  b0 : K
  b1 : K
  b2 : K
  k : K

/-- `CostModel`: the five regression polynomials and the replacement rate. -/
structure CostModel (K : Type) where
  design : AbstractCoefs K
  assembly : AbstractCoefs K
  sysDesign : AbstractCoefs K
  energyLoss : AbstractCoefs K
  sysMaint : AbstractCoefs K
  systemReplRate : K

namespace CostModel

variable {K : Type} [Field K] [MathPow K]

def calcFunction (b0 b1 b2 k x : K) : K :=
  b0 + b1 * x + b2 * MathPow.pow x k

def calcAssembly (model : CostModel K) (N : ℕ) (cmplx : K) : K :=
  calcFunction model.assembly.b0 model.assembly.b1 model.assembly.b2 model.assembly.k N * cmplx

def calcDesign (model : CostModel K) (N : ℕ) : K :=
  calcFunction model.design.b0 model.design.b1 model.design.b2 model.design.k N

def calcEnergyLoss (model : CostModel K) (N : ℕ) : K :=
  calcFunction model.energyLoss.b0 model.energyLoss.b1 model.energyLoss.b2 model.energyLoss.k N

def calcSysDesign (model : CostModel K) (N : ℕ) : K :=
  calcFunction model.sysDesign.b0 model.sysDesign.b1 model.sysDesign.b2 model.sysDesign.k N

def calcSysMaint (model : CostModel K) (N : ℕ) : K :=
  calcFunction model.sysMaint.b0 model.sysMaint.b1 model.sysMaint.b2 model.sysMaint.k N

/-- The coefficients a project has when its file sets none. -/
def initial : CostModel K where
  design := ⟨400, 100, 5 / 10, 4⟩
  assembly := ⟨20, 15, 3 / 10, 3⟩
  sysDesign := ⟨2800, 1000, 10, 3⟩
  energyLoss := ⟨0, 15 / 10 ^ 9, 15 / 10 ^ 9, 4⟩
  sysMaint := ⟨1388889 / 10 ^ 9, 138889 / 10 ^ 9, 277778 / 10 ^ 10, 2⟩
  systemReplRate := 1584438233281084 / 10 ^ 23

end CostModel

/-- `Config`: the settings read by the modelled functions. -/
structure Config (K : Type) where
  generationsLimit : ℤ
  generationsStep : ℤ
  nearInfinity : K
  nearZero : K

/-- The settings a project has when its file sets none. -/
def Config.initial {K : Type} [Field K] : Config K where
  generationsLimit := 1500
  generationsStep := 50
  nearInfinity := 10 ^ 14
  nearZero := 1 / 10 ^ 14

inductive ConstraintType where
  /-- Component depends on any of the listed components. -/
  | dependAny
  /-- Component excludes all of the listed components. -/
  | exclude
  deriving DecidableEq, Repr

structure Constraint (Comp : Type) where
  type : ConstraintType
  refComponents : List Comp

structure Component (Comp K : Type) where
  family : String
  investmentCosts : K
  operatingPower : K
  complexity : K
  constraints : List (Constraint Comp)

/-- The body of a mission's `getAgentPerformance`, by what it asks the agent for:
`AreaCoverageMission` and `TransportationMission` search `getComponents()`, the
greenhouse missions and `DummyMission` look families up in `getComponentMap()`. -/
inductive AgentReader (Comp K : Type) where
  | ofComponents (performance : List Comp → K)
  | ofComponentMap (performance : (String → Option Comp) → K)

/-- `Mission`: the two abstract methods the optimizer calls. -/
structure Mission (Comp K : Type) where
  getAgentPerformance : AgentReader Comp K
  getAmountOfWork : K

/-- `Project`, less the list of agents, which is part of the mutable heap. -/
structure Project (Comp Miss K : Type) where
  components : List Comp
  missions : List Miss
  component : Comp → Component Comp K
  mission : Miss → Mission Comp K
  config : Config K
  costModel : CostModel K

end MrsOptimization
