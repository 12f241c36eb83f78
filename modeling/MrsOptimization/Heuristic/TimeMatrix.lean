import MrsOptimization.Heuristic.Objects
import MrsOptimization.Library.ExactDouble
import MrsOptimization.Library.Selection
import MrsOptimization.Library.Sums
import Mathlib.Algebra.BigOperators.Group.List.Basic
import Mathlib.Algebra.Order.BigOperators.Group.List

/-!
# The agent-mission time matrix

`AgentMissionMatrix` holds working times in a `double[][]` that is addressed by
the `indexOf` of an agent and of a mission. Methods that ask an agent for its
operating energy are written for any monad, since the energy is a cached
property: at `Id` they are the pure functions, on the heap of agents they read
the caches.
-/

namespace MrsOptimization

/-- The methods of agents and missions that cost calculation calls, in the monad it runs in. -/
structure AgentApi (m : Type → Type) (A Miss K : Type) where
  getAgentPerformance : Miss → A → m K
  getOperatingEnergy : A → m K

/-- `AgentMissionMatrix`; `data i j` is cell `[i][j]`, and zero until it is set. -/
structure AgentMissionMatrix (A Miss K : Type) where
  agents : List A
  missions : List Miss
  data : ℕ → ℕ → K

namespace AgentMissionMatrix

variable {A Miss K : Type} [DecidableEq A] [DecidableEq Miss]

section Cells

variable [Zero K]

def new (agents : List A) (missions : List Miss) : AgentMissionMatrix A Miss K :=
  ⟨agents, missions, fun _ _ => 0⟩

def getValue (matrix : AgentMissionMatrix A Miss K) (agent : A) (mission : Miss) : K :=
  matrix.data (matrix.agents.idxOf agent) (matrix.missions.idxOf mission)

/-- The cell takes `value` if that is positive, and zero otherwise. -/
def setValue [LinearOrder K] (matrix : AgentMissionMatrix A Miss K) (agent : A) (mission : Miss)
    (value : K) : AgentMissionMatrix A Miss K :=
  let row := matrix.agents.idxOf agent
  let column := matrix.missions.idxOf mission
  { matrix with
    data := Function.update matrix.data row
      (Function.update (matrix.data row) column (if 0 < value then value else 0)) }

@[simp]
theorem getValue_new (agents : List A) (missions : List Miss) (agent : A) (mission : Miss) :
    (new agents missions : AgentMissionMatrix A Miss K).getValue agent mission = 0 := rfl

variable [LinearOrder K]

@[simp]
theorem setValue_agents (matrix : AgentMissionMatrix A Miss K) (agent : A) (mission : Miss)
    (value : K) : (matrix.setValue agent mission value).agents = matrix.agents := rfl

@[simp]
theorem setValue_missions (matrix : AgentMissionMatrix A Miss K) (agent : A) (mission : Miss)
    (value : K) : (matrix.setValue agent mission value).missions = matrix.missions := rfl

theorem written_of_nonneg {value : K} (nonneg : 0 ≤ value) :
    (if 0 < value then value else 0) = value := by
  rcases nonneg.eq_or_lt with zero | positive
  · rw [if_neg zero.not_lt, zero]
  · rw [if_pos positive]

/-- Distinct objects have distinct indices, so a write changes one cell only. -/
theorem getValue_setValue {matrix : AgentMissionMatrix A Miss K} {agent other : A}
    {mission otherMission : Miss} (agentMem : agent ∈ matrix.agents)
    (missionMem : mission ∈ matrix.missions) (value : K) :
    (matrix.setValue agent mission value).getValue other otherMission =
      if other = agent ∧ otherMission = mission then (if 0 < value then value else 0)
      else matrix.getValue other otherMission := by
  have agentIndex : matrix.agents.idxOf other = matrix.agents.idxOf agent ↔ other = agent :=
    ⟨fun same => ((List.idxOf_inj agentMem).mp same.symm).symm, fun same => same ▸ rfl⟩
  have missionIndex : matrix.missions.idxOf otherMission = matrix.missions.idxOf mission ↔
      otherMission = mission :=
    ⟨fun same => ((List.idxOf_inj missionMem).mp same.symm).symm, fun same => same ▸ rfl⟩
  simp only [getValue, setValue, Function.update_apply, agentIndex]
  by_cases sameAgent : other = agent
  · simp [sameAgent, Function.update_apply, missionIndex]
  · simp [sameAgent]

end Cells

section Costs

variable [Field K] [LinearOrder K] [MathPow K]

def getCosts {m : Type → Type} [Monad m] (costModel : CostModel K)
    (getOperatingEnergy : A → m K) (matrix : AgentMissionMatrix A Miss K) (sysCosts : K) :
    m K := do
  let (maxValue, result) ← matrix.agents.foldlM (fun (maxValue, result) agent => do
      let (result, agentValue) ← matrix.missions.foldlM (fun (result, agentValue) mis => do
          let currValue := matrix.getValue agent mis
          let energy ← getOperatingEnergy agent
          return (result + energy * currValue, agentValue + currValue)) (result, 0)
      return (max agentValue maxValue, result)) ((0 : K), (0 : K))
  let result := result + costModel.calcSysMaint matrix.agents.length * maxValue
  let result := result + costModel.systemReplRate * maxValue * sysCosts
  return result

def load (matrix : AgentMissionMatrix A Miss K) (agent : A) : K :=
  (matrix.missions.map fun mis => matrix.getValue agent mis).sum

def maxLoad (matrix : AgentMissionMatrix A Miss K) : K :=
  matrix.agents.foldl (fun maxValue agent => max (matrix.load agent) maxValue) 0

/-- In closed form, the energy of all working times plus the running costs of the system
for as long as its busiest agent works. -/
theorem getCosts_id (costModel : CostModel K) (energy : A → Id K)
    (matrix : AgentMissionMatrix A Miss K) (sysCosts : K) :
    (matrix.getCosts costModel energy sysCosts).run =
      (matrix.agents.map fun agent => (energy agent).run * matrix.load agent).sum +
        (costModel.calcSysMaint matrix.agents.length + costModel.systemReplRate * sysCosts) *
          matrix.maxLoad := by
  simp only [getCosts, Id.run_bind, List.idRun_foldlM, Id.run_pure, foldl_weighted_sum, zero_add]
  simp only [foldl_max_weighted_sum fun agent => (energy agent).run, zero_add, maxLoad, load]
  ring

/-- `getSysTime`. -/
def getSysTime (matrix : AgentMissionMatrix A Miss K) : K :=
  matrix.agents.foldl (fun maxValue agent =>
    let agentValue := matrix.missions.foldl (fun agentValue mis =>
      agentValue + matrix.getValue agent mis) 0
    max agentValue maxValue) 0

omit [MathPow K] in
theorem getSysTime_eq (matrix : AgentMissionMatrix A Miss K) :
    matrix.getSysTime = matrix.maxLoad := by
  have loop : ∀ agent, matrix.missions.foldl (fun agentValue mis =>
      agentValue + matrix.getValue agent mis) 0 = matrix.load agent := by
    intro agent
    simp [load, List.sum_eq_foldl, List.foldl_map]
  simp only [getSysTime, loop, maxLoad]

end Costs

section Queries

variable [Field K] [LinearOrder K]

/-- `getSum(Agent)`: the row of an agent. -/
def getSumAgent (matrix : AgentMissionMatrix A Miss K) (agent : A) : K :=
  ((List.range matrix.missions.length).map (matrix.data (matrix.agents.idxOf agent))).sum

/-- The work done on a mission when its agents perform as given. -/
def getWorkDone (performance : Miss → A → K) (matrix : AgentMissionMatrix A Miss K)
    (mission : Miss) : K :=
  (matrix.agents.map fun agent => matrix.getValue agent mission * performance mission agent).sum

def incValue (matrix : AgentMissionMatrix A Miss K) (agent : A) (mission : Miss) (delta : K) :
    AgentMissionMatrix A Miss K :=
  matrix.setValue agent mission (matrix.getValue agent mission + delta)

def getMaxCost (performance : Miss → A → K) (operatingEnergy : A → K)
    (matrix : AgentMissionMatrix A Miss K) (agent : A) : Option Miss :=
  (pickBest ExactDouble.less
    (fun mission => ExactDouble.divide (operatingEnergy agent) (performance mission agent))
    (matrix.missions.filter fun mission =>
      0 < performance mission agent ∧ 0 < matrix.getValue agent mission)
    (none, .finite 0)).1

variable {matrix : AgentMissionMatrix A Miss K} {agent : A} {mission : Miss}

theorem getSumAgent_setValue_self (missionMem : mission ∈ matrix.missions) (value : K) :
    (matrix.setValue agent mission value).getSumAgent agent =
      matrix.getSumAgent agent +
        ((if 0 < value then value else 0) - matrix.getValue agent mission) := by
  have column : matrix.missions.idxOf mission ∈ List.range matrix.missions.length :=
    List.mem_range.mpr (List.idxOf_lt_length_iff.mpr missionMem)
  simp only [getSumAgent, setValue, Function.update_self]
  exact sum_map_update List.nodup_range _ column _

theorem getSumAgent_setValue_of_ne (agentMem : agent ∈ matrix.agents) {other : A}
    (different : other ≠ agent) (value : K) :
    (matrix.setValue agent mission value).getSumAgent other = matrix.getSumAgent other := by
  have rows : matrix.agents.idxOf other ≠ matrix.agents.idxOf agent := by
    intro same
    exact different ((List.idxOf_inj agentMem).mp same.symm).symm
  simp only [getSumAgent, setValue, Function.update_of_ne rows]

theorem getWorkDone_setValue_self (nodup : matrix.agents.Nodup)
    (agentMem : agent ∈ matrix.agents) (missionMem : mission ∈ matrix.missions)
    (performance : Miss → A → K) (value : K) :
    (matrix.setValue agent mission value).getWorkDone performance mission =
      matrix.getWorkDone performance mission +
        ((if 0 < value then value else 0) - matrix.getValue agent mission) *
          performance mission agent := by
  have updated : (fun other => (matrix.setValue agent mission value).getValue other mission *
        performance mission other) =
      Function.update (fun other => matrix.getValue other mission * performance mission other)
        agent ((if 0 < value then value else 0) * performance mission agent) := by
    funext other
    by_cases same : other = agent
    · subst same
      simp [getValue_setValue agentMem missionMem]
    · simp [getValue_setValue agentMem missionMem, same]
  simp only [getWorkDone, setValue_agents, updated, sum_map_update nodup _ agentMem, sub_mul]

theorem getWorkDone_setValue_of_ne (agentMem : agent ∈ matrix.agents)
    (missionMem : mission ∈ matrix.missions) (performance : Miss → A → K) {other : Miss}
    (different : other ≠ mission) (value : K) :
    (matrix.setValue agent mission value).getWorkDone performance other =
      matrix.getWorkDone performance other := by
  simp [getWorkDone, getValue_setValue agentMem missionMem, different]

@[simp]
theorem incValue_agents (delta : K) :
    (matrix.incValue agent mission delta).agents = matrix.agents := rfl

@[simp]
theorem incValue_missions (delta : K) :
    (matrix.incValue agent mission delta).missions = matrix.missions := rfl

theorem data_setValue (value : K) (row column : ℕ) :
    (matrix.setValue agent mission value).data row column =
      if row = matrix.agents.idxOf agent ∧ column = matrix.missions.idxOf mission then
        (if 0 < value then value else 0)
      else matrix.data row column := by
  by_cases sameRow : row = matrix.agents.idxOf agent
  · subst sameRow
    by_cases sameColumn : column = matrix.missions.idxOf mission
    · subst sameColumn
      simp [setValue]
    · simp [setValue, sameColumn]
  · simp [setValue, sameRow]

theorem data_incValue {delta : K} (nonneg : 0 ≤ matrix.getValue agent mission + delta)
    (row column : ℕ) :
    (matrix.incValue agent mission delta).data row column =
      matrix.data row column +
        if row = matrix.agents.idxOf agent ∧ column = matrix.missions.idxOf mission then delta
        else 0 := by
  rw [incValue, data_setValue]
  split
  · rename_i here
    rw [here.1, here.2]
    exact written_of_nonneg nonneg
  · simp

theorem getSumAgent_incValue_self (missionMem : mission ∈ matrix.missions) {delta : K}
    (nonneg : 0 ≤ matrix.getValue agent mission + delta) :
    (matrix.incValue agent mission delta).getSumAgent agent =
      matrix.getSumAgent agent + delta := by
  rw [incValue, getSumAgent_setValue_self missionMem, written_of_nonneg nonneg]
  abel

theorem getWorkDone_incValue_self (nodup : matrix.agents.Nodup)
    (agentMem : agent ∈ matrix.agents) (missionMem : mission ∈ matrix.missions)
    (performance : Miss → A → K) {delta : K}
    (nonneg : 0 ≤ matrix.getValue agent mission + delta) :
    (matrix.incValue agent mission delta).getWorkDone performance mission =
      matrix.getWorkDone performance mission + delta * performance mission agent := by
  rw [incValue, getWorkDone_setValue_self nodup agentMem missionMem, written_of_nonneg nonneg]
  ring

/-- An increment adds its share to any weighted sum over the agents. -/
theorem sum_mul_getSumAgent_incValue (nodup : matrix.agents.Nodup)
    (agentMem : agent ∈ matrix.agents) (missionMem : mission ∈ matrix.missions)
    (weight : A → K) {delta : K} (nonneg : 0 ≤ matrix.getValue agent mission + delta) :
    (matrix.agents.map fun other =>
        weight other * (matrix.incValue agent mission delta).getSumAgent other).sum =
      (matrix.agents.map fun other => weight other * matrix.getSumAgent other).sum +
        weight agent * delta := by
  have updated : (fun other =>
        weight other * (matrix.incValue agent mission delta).getSumAgent other) =
      Function.update (fun other => weight other * matrix.getSumAgent other) agent
        (weight agent * (matrix.getSumAgent agent + delta)) := by
    funext other
    by_cases same : other = agent
    · subst same
      simp [getSumAgent_incValue_self missionMem nonneg]
    · simp [incValue, same, getSumAgent_setValue_of_ne agentMem same]
  rw [updated, sum_map_update nodup _ agentMem]
  ring

/-- A cell is a part of the load of its agent. -/
theorem getValue_le_getSumAgent [IsStrictOrderedRing K]
    (nonneg : ∀ row column, 0 ≤ matrix.data row column) (missionMem : mission ∈ matrix.missions)
    (agent : A) : matrix.getValue agent mission ≤ matrix.getSumAgent agent := by
  apply List.single_le_sum
  · intro cell cellMem
    rcases List.mem_map.mp cellMem with ⟨column, -, rfl⟩
    exact nonneg _ column
  · apply List.mem_map_of_mem
    exact List.mem_range.mpr (List.idxOf_lt_length_of_mem missionMem)

/-- What one agent does is a part of the work done. -/
theorem mul_le_getWorkDone [IsStrictOrderedRing K] {performance : Miss → A → K}
    (nonneg : ∀ other ∈ matrix.agents, 0 ≤ matrix.getValue other mission)
    (able : ∀ other ∈ matrix.agents, 0 ≤ performance mission other)
    (agentMem : agent ∈ matrix.agents) :
    matrix.getValue agent mission * performance mission agent ≤
      matrix.getWorkDone performance mission := by
  apply List.single_le_sum
  · intro work workMem
    rcases List.mem_map.mp workMem with ⟨other, otherMem, rfl⟩
    exact mul_nonneg (nonneg other otherMem) (able other otherMem)
  · exact List.mem_map.mpr ⟨agent, agentMem, rfl⟩

omit [LinearOrder K] in
/-- With distinct missions every cell of a row belongs to one of them. -/
theorem load_eq_getSumAgent (nodup : matrix.missions.Nodup) (agent : A) :
    matrix.load agent = matrix.getSumAgent agent :=
  sum_map_idxOf nodup (matrix.data (matrix.agents.idxOf agent))

theorem getMaxCost_some {performance : Miss → A → K} {operatingEnergy : A → K}
    (found : matrix.getMaxCost performance operatingEnergy agent = some mission) :
    mission ∈ matrix.missions ∧ 0 < performance mission agent ∧
      0 < matrix.getValue agent mission := by
  have picked := (pickBest_some ExactDouble.less_trans found).1
  simpa using picked

end Queries

end AgentMissionMatrix

end MrsOptimization
