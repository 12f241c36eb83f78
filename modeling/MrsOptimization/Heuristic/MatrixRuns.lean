import MrsOptimization.Heuristic.Missions
import MrsOptimization.Heuristic.TimeMatrix
import Mathlib.Algebra.BigOperators.Group.Multiset.Basic
import Mathlib.Order.Bounds.Basic

/-!
# Any sequence of writes to the time matrix

Cost calculators write to the matrix by `setValue` and `incValue`, and then read it
by methods that sum over different axes or take the maximum anew. Every write keeps
the cells from being negative (`AgentMissionMatrix.written_of_calls`), and that is
all that the relations between the sums depend on (`AgentMissionMatrix.sums_of_calls`).
-/

namespace MrsOptimization

variable {A Miss K : Type} [DecidableEq A] [DecidableEq Miss] [Field K] [LinearOrder K]

inductive MatrixCall (A Miss K : Type) where
  | setValue (agent : A) (mission : Miss) (value : K)
  | incValue (agent : A) (mission : Miss) (delta : K)

/-- A call for an agent or a mission that the matrix does not have is an error and changes
nothing. -/
def MatrixCall.run (matrix : AgentMissionMatrix A Miss K) :
    MatrixCall A Miss K → AgentMissionMatrix A Miss K
  | setValue agent mission value =>
      if agent ∈ matrix.agents ∧ mission ∈ matrix.missions then
        matrix.setValue agent mission value
      else matrix
  | incValue agent mission delta =>
      if agent ∈ matrix.agents ∧ mission ∈ matrix.missions then
        matrix.incValue agent mission delta
      else matrix

namespace AgentMissionMatrix

/-- `getSum(Mission)`: the column of a mission. -/
def getSumMission (matrix : AgentMissionMatrix A Miss K) (mission : Miss) : K :=
  ((List.range matrix.agents.length).map fun row =>
    matrix.data row (matrix.missions.idxOf mission)).sum

/-- A matrix of the given agents and missions without negative times. -/
structure Written (agents : List A) (missions : List Miss)
    (matrix : AgentMissionMatrix A Miss K) : Prop where
  agents_eq : matrix.agents = agents
  missions_eq : matrix.missions = missions
  nonneg : ∀ row column, 0 ≤ matrix.data row column

namespace Written

variable {agents : List A} {missions : List Miss} {matrix : AgentMissionMatrix A Miss K}

omit [DecidableEq A] [DecidableEq Miss] in
theorem new : (AgentMissionMatrix.new agents missions : AgentMissionMatrix A Miss K).Written
    agents missions :=
  ⟨rfl, rfl, fun _ _ => le_rfl⟩

theorem setValue (written : matrix.Written agents missions) (agent : A) (mission : Miss)
    (value : K) : (matrix.setValue agent mission value).Written agents missions := by
  refine ⟨written.agents_eq, written.missions_eq, fun row column => ?_⟩
  rw [data_setValue]
  split
  · split
    · rename_i positive
      exact positive.le
    · exact le_rfl
  · exact written.nonneg row column

theorem run (written : matrix.Written agents missions) (call : MatrixCall A Miss K) :
    (call.run matrix).Written agents missions := by
  cases call with
  | setValue agent mission value =>
      rw [MatrixCall.run]
      split
      · exact written.setValue agent mission value
      · exact written
  | incValue agent mission delta =>
      rw [MatrixCall.run]
      split
      · exact written.setValue agent mission _
      · exact written

/-- The sums of the rows and those of the columns have one total. -/
theorem sum_getSum (written : matrix.Written agents missions) (agentsNodup : agents.Nodup)
    (missionsNodup : missions.Nodup) :
    (agents.map matrix.getSumAgent).sum = (missions.map matrix.getSumMission).sum := by
  rcases written with ⟨rfl, rfl, -⟩
  have rows := sum_map_idxOf agentsNodup fun row =>
    ((List.range matrix.missions.length).map (matrix.data row)).sum
  have columns := sum_map_idxOf missionsNodup fun column =>
    ((List.range matrix.agents.length).map fun row => matrix.data row column).sum
  have exchanged := Multiset.sum_map_sum_map (List.range matrix.agents.length : Multiset ℕ)
    (List.range matrix.missions.length : Multiset ℕ) (f := matrix.data)
  simp only [Multiset.map_coe, Multiset.sum_coe] at exchanged
  exact rows.trans (exchanged.trans columns.symm)

theorem getSysTime_eq_foldr (written : matrix.Written agents missions)
    (missionsNodup : missions.Nodup) :
    matrix.getSysTime = (agents.map matrix.getSumAgent).foldr max 0 := by
  rcases written with ⟨rfl, rfl, -⟩
  have loads : matrix.load = matrix.getSumAgent := funext (load_eq_getSumAgent missionsNodup)
  rw [getSysTime_eq, maxLoad, loads, foldl_max_eq_foldr]

variable [IsStrictOrderedRing K]

omit [DecidableEq Miss] in
theorem getSumAgent_nonneg (written : matrix.Written agents missions) (agent : A) :
    0 ≤ matrix.getSumAgent agent := by
  apply List.sum_nonneg
  intro time timeMem
  rcases List.mem_map.mp timeMem with ⟨column, -, rfl⟩
  exact written.nonneg _ column

theorem getSysTime_isGreatest (written : matrix.Written agents missions)
    (missionsNodup : missions.Nodup) (nonempty : agents ≠ []) :
    IsGreatest {time | ∃ agent ∈ agents, matrix.getSumAgent agent = time}
      matrix.getSysTime := by
  rw [written.getSysTime_eq_foldr missionsNodup]
  constructor
  · rcases foldr_max_mem (agents.map matrix.getSumAgent) 0 with zero | attained
    · -- All sums are zero.
      rcases List.exists_mem_of_ne_nil agents nonempty with ⟨agent, agentMem⟩
      have upper := le_foldr_max (List.mem_map_of_mem (f := matrix.getSumAgent) agentMem) 0
      rw [zero] at upper ⊢
      exact ⟨agent, agentMem, le_antisymm upper (written.getSumAgent_nonneg agent)⟩
    · rcases List.mem_map.mp attained with ⟨agent, agentMem, equal⟩
      exact ⟨agent, agentMem, equal⟩
  · rintro time ⟨agent, agentMem, rfl⟩
    exact le_foldr_max (List.mem_map_of_mem agentMem) 0

end Written

theorem written_of_calls (agents : List A) (missions : List Miss)
    (calls : List (MatrixCall A Miss K)) :
    (calls.foldl MatrixCall.run (new agents missions)).Written agents missions := by
  induction calls using List.reverseRecOn with
  | nil => exact Written.new
  | append_singleton calls call ih =>
      rw [List.foldl_append]
      exact ih.run call

/-- After any calls no cell is negative, the sums of the rows have the total of the sums of the
columns, the system time is the greatest sum of a row, and the costs are those of the energy for
all times and of the running system for its time. -/
theorem sums_of_calls [IsStrictOrderedRing K] [MathPow K] {agents : List A}
    {missions : List Miss} (agentsNodup : agents.Nodup) (missionsNodup : missions.Nodup)
    (calls : List (MatrixCall A Miss K)) (costModel : CostModel K) (operatingEnergy : A → K)
    (sysCosts : K) :
    let matrix := calls.foldl MatrixCall.run (new agents missions)
    (∀ row column, 0 ≤ matrix.data row column) ∧
      (agents.map matrix.getSumAgent).sum = (missions.map matrix.getSumMission).sum ∧
      (agents ≠ [] → IsGreatest {time | ∃ agent ∈ agents, matrix.getSumAgent agent = time}
        matrix.getSysTime) ∧
      (agents = [] → matrix.getSysTime = 0) ∧
      (matrix.getCosts costModel (fun agent => (pure (operatingEnergy agent) : Id K))
          sysCosts).run =
        (agents.map fun agent => operatingEnergy agent * matrix.getSumAgent agent).sum +
          (costModel.calcSysMaint agents.length + costModel.systemReplRate * sysCosts) *
            matrix.getSysTime := by
  intro matrix
  have written : matrix.Written agents missions := written_of_calls agents missions calls
  refine ⟨written.nonneg, written.sum_getSum agentsNodup missionsNodup,
    written.getSysTime_isGreatest missionsNodup, ?_, ?_⟩
  · rintro rfl
    exact written.getSysTime_eq_foldr missionsNodup
  · have missionsEq : matrix.missions.Nodup := written.missions_eq.symm ▸ missionsNodup
    rw [getCosts_id, getSysTime_eq, written.agents_eq]
    simp only [load_eq_getSumAgent missionsEq, Id.run_pure]

/-- A negative time, and a decrease below zero, are stored as zero. -/
theorem sums_of_calls_grass :
    let matrix : AgentMissionMatrix ℕ GrassMission ℚ :=
      [.setValue 0 .mowing 5, .incValue 1 .mowing 4, .incValue 0 .mowing (-7),
        .setValue 1 .watching (-1), .incValue 2 .mowing 3].foldl MatrixCall.run
        (new [0, 1] [.mowing, .watching])
    matrix.getSysTime = 4 ∧ IsGreatest {time | ∃ agent ∈ [0, 1], matrix.getSumAgent agent = time}
      matrix.getSysTime := by
  refine ⟨by decide +kernel, ?_⟩
  exact (sums_of_calls (by decide) (by decide) _ CostModel.initial (fun _ => 0) 0).2.2.1
    (List.cons_ne_nil 0 [1])

end AgentMissionMatrix

end MrsOptimization
