import Mathlib.Data.List.Dedup
import MrsOptimization.Heuristic.TotalCost
import MrsOptimization.Library.FilledMaps

/-!
# The operating cost of a table of times

`MrsOpCostFitnessFunction.evaluate` charges a chromosome with a gene for every agent and
mission, `AgentMissionMatrix.getCosts` the matrix of the same times. The energy is the
same; the running costs are not, since the one takes the number of genes and the longest
single time for what the other takes as the number of agents and the longest working time
of an agent.
-/

namespace MrsOptimization

/-- `OpTimeGene`: the time, its allele, that an agent works on a mission. -/
structure OpTimeGene (Miss : Type) where
  mission : Miss
  agent : AgentRef
  time : ℤ
  deriving DecidableEq

/-- The local variables of `evaluate`. -/
structure OpEvaluation (Miss K : Type) where
  mMap : Miss → Option K
  Qenergy : K
  Tsys : ℤ

/-- `MrsOpCostFitnessFunction`; `missionMap` starts every evaluation. -/
structure MrsOpCostFitnessFunction (Comp Miss K : Type) where
  project : Project Comp Miss K
  qInv : K
  missionMap : Miss → Option K

namespace MrsOpCostFitnessFunction

variable {Comp Miss K : Type} [DecidableEq Miss] [Field K] [LinearOrder K] [MathPow K]

section Code

def new (project : Project Comp Miss K) (qInv : K) : MrsOpCostFitnessFunction Comp Miss K where
  project := project
  qInv := qInv
  missionMap := project.missions.foldl (fun map m => Function.update map m (some 0)) fun _ => none

/-- The body of the first loop; it fails on a mission that is not a key. -/
def evaluateGene (project : Project Comp Miss K) (acc : OpEvaluation Miss K)
    (gene : OpTimeGene Miss) : HeapM Comp K (OpEvaluation Miss K) := do
  let Tsys := max acc.Tsys gene.time
  let energy ← Agent.getOperatingEnergy project gene.agent
  let Qenergy := acc.Qenergy + energy * gene.time
  match acc.mMap gene.mission with
  | some work =>
      let performance ← Mission.performance project gene.mission gene.agent
      return ⟨Function.update acc.mMap gene.mission (some (work + performance * gene.time)),
        Qenergy, Tsys⟩
  | none => failure

/-- The loop over the entries of `mMap`, whose keys are the missions of the project. -/
def penalty (project : Project Comp Miss K) (mMap : Miss → Option K) : K :=
  project.missions.dedup.foldl (fun penalty mis =>
    match mMap mis with
    | some value =>
        if value < (project.mission mis).getAmountOfWork then
          penalty + ((project.mission mis).getAmountOfWork - value)
        else penalty
    | none => penalty) 0

def evaluate (fitness : MrsOpCostFitnessFunction Comp Miss K) (genes : List (OpTimeGene Miss)) :
    HeapM Comp K K := do
  let project := fitness.project
  let acc ← genes.foldlM (evaluateGene project) ⟨fitness.missionMap, 0, 0⟩
  let Qmaint := project.costModel.calcSysMaint genes.length * acc.Tsys
  let Qrepl := fitness.qInv * project.costModel.systemReplRate * acc.Tsys
  return Qmaint + Qrepl + acc.Qenergy + penalty project acc.mMap * (1000 : ℕ)

end Code

section Specification

variable (project : Project Comp Miss K) (heap : Heap Comp K)

/-- The energy that the agents of the genes spend. -/
def energySpent (genes : List (OpTimeGene Miss)) : K :=
  (genes.map fun gene =>
    Agent.operatingEnergyOf project (heap.components gene.agent) * gene.time).sum

/-- The work that the agents of the genes do on a mission. -/
def workDone (genes : List (OpTimeGene Miss)) (mis : Miss) : K :=
  ((genes.filter fun gene => gene.mission = mis).map fun gene =>
    Mission.performanceOf project mis (heap.components gene.agent) * gene.time).sum

/-- One gene for every agent and mission. -/
def tableGenes (mrs : List AgentRef) (missions : List Miss) (time : AgentRef → Miss → ℤ) :
    List (OpTimeGene Miss) :=
  mrs.flatMap fun agent => missions.map fun mis => ⟨mis, agent, time agent mis⟩

omit [DecidableEq Miss] in
/-- The longest time of an agent on a mission. -/
def longestTime (mrs : List AgentRef) (missions : List Miss) (time : AgentRef → Miss → ℤ) : ℤ :=
  (mrs.flatMap fun agent => missions.map (time agent)).foldr max 0

/-- The longest time that an agent works on all missions together. -/
def longestLoad (mrs : List AgentRef) (missions : List Miss) (time : AgentRef → Miss → ℤ) : ℤ :=
  (mrs.map fun agent => (missions.map (time agent)).sum).foldr max 0

end Specification

section Evaluation

variable {project : Project Comp Miss K} {heap : Heap Comp K} {genes : List (OpTimeGene Miss)}

omit [LinearOrder K] [MathPow K] in
theorem keyed_new (qInv : K) {mis : Miss} (misMem : mis ∈ project.missions) :
    (new project qInv).missionMap mis = some 0 := by
  rcases foldl_update_of_mem id (fun _ : Miss => some (0 : K)) misMem with ⟨-, -, -, filled⟩
  exact filled

omit [MathPow K] in
/-- Work that is completed is not charged. -/
theorem penalty_of_complete {mMap : Miss → Option K}
    (complete : ∀ mis ∈ project.missions, ∃ value, mMap mis = some value ∧
      (project.mission mis).getAmountOfWork ≤ value) : penalty project mMap = 0 := by
  rw [penalty]
  have general : ∀ missions : List Miss, (∀ mis ∈ missions, mis ∈ project.missions) →
      missions.foldl (fun penalty mis =>
        match mMap mis with
        | some value =>
            if value < (project.mission mis).getAmountOfWork then
              penalty + ((project.mission mis).getAmountOfWork - value)
            else penalty
        | none => penalty) (0 : K) = 0 := by
    intro missions known
    induction missions with
    | nil => rfl
    | cons mis rest ih =>
        rcases complete mis (known mis List.mem_cons_self) with ⟨value, found, enough⟩
        simp only [List.foldl_cons, found, if_neg enough.not_gt]
        exact ih fun other otherMem => known other (List.mem_cons_of_mem mis otherMem)
  exact general _ fun mis misMem => List.mem_dedup.mp misMem

/-- What the first loop adds up. -/
theorem computes_evaluateGenes (acc : OpEvaluation Miss K)
    (keyed : ∀ gene ∈ genes, (acc.mMap gene.mission).isSome)
    (allocated : ∀ gene ∈ genes, gene.agent < heap.next) :
    Computes (Heap.Good project (· < heap.next) heap) (genes.foldlM (evaluateGene project) acc)
      ⟨fun mis => (acc.mMap mis).map (· + workDone project heap genes mis),
        acc.Qenergy + energySpent project heap genes,
        genes.foldl (fun Tsys gene => max gene.time Tsys) acc.Tsys⟩ := by
  induction genes generalizing acc with
  | nil =>
      simpa [workDone, energySpent] using Computes.pure acc
  | cons gene rest ih =>
      rcases Option.isSome_iff_exists.mp (keyed gene List.mem_cons_self) with ⟨work, found⟩
      have below := allocated gene List.mem_cons_self
      rw [List.foldlM_cons]
      have step : Computes (Heap.Good project (· < heap.next) heap)
          (evaluateGene project acc gene)
          ⟨Function.update acc.mMap gene.mission (some (work +
              Mission.performanceOf project gene.mission (heap.components gene.agent) *
                gene.time)),
            acc.Qenergy + Agent.operatingEnergyOf project (heap.components gene.agent) *
              gene.time, max acc.Tsys gene.time⟩ := by
        rw [evaluateGene]
        refine Computes.bind (computes_getProperty .operatingEnergy below below) ?_
        simp only [found]
        exact Computes.bind (computes_performance gene.mission below below) (Computes.pure _)
      refine Computes.bind step ?_
      have later := ih ⟨Function.update acc.mMap gene.mission (some (work +
          Mission.performanceOf project gene.mission (heap.components gene.agent) * gene.time)),
        acc.Qenergy + Agent.operatingEnergyOf project (heap.components gene.agent) * gene.time,
        max acc.Tsys gene.time⟩ ?_ fun other otherMem =>
          allocated other (List.mem_cons_of_mem gene otherMem)
      · convert later using 2
        · funext mis
          by_cases same : mis = gene.mission
          · subst same
            simp [found, workDone, add_assoc]
          · simp [workDone, same, Ne.symm same]
        · simp [energySpent, add_assoc]
        · rw [List.foldl_cons, max_comm]
      · intro other otherMem
        have known := keyed other (List.mem_cons_of_mem gene otherMem)
        by_cases same : other.mission = gene.mission
        · simp [same]
        · simpa [Function.update_of_ne same] using known

/-- The value of a chromosome that completes all work. -/
theorem computes_evaluate {qInv : K} (known : ∀ gene ∈ genes, gene.mission ∈ project.missions)
    (allocated : ∀ gene ∈ genes, gene.agent < heap.next)
    (complete : ∀ mis ∈ project.missions,
      (project.mission mis).getAmountOfWork ≤ workDone project heap genes mis) :
    Computes (Heap.Good project (· < heap.next) heap) ((new project qInv).evaluate genes)
      (energySpent project heap genes +
        (project.costModel.calcSysMaint genes.length + project.costModel.systemReplRate * qInv) *
          ((genes.map OpTimeGene.time).foldr max 0 : ℤ)) := by
  have keyed (gene : OpTimeGene Miss) (geneMem : gene ∈ genes) :
      ((new project qInv).missionMap gene.mission).isSome := by
    simp [keyed_new qInv (known gene geneMem)]
  rw [evaluate]
  refine Computes.bind (computes_evaluateGenes _ keyed allocated) ?_
  have done : penalty project (fun mis => ((new project qInv).missionMap mis).map
      (· + workDone project heap genes mis)) = 0 := by
    refine penalty_of_complete fun mis misMem => ⟨workDone project heap genes mis, ?_,
      complete mis misMem⟩
    simp [keyed_new qInv misMem]
  simp only [new] at done ⊢
  rw [done, foldl_max_eq_foldr]
  intro store good
  refine ⟨_, store, rfl, ?_, good⟩
  ring

end Evaluation

section Tables

variable {mrs : List AgentRef} {time : AgentRef → Miss → ℤ} {genes : List (OpTimeGene Miss)}

omit [DecidableEq Miss] in
/-- The genes of a table name its times in some order. -/
theorem longestTime_eq {missions : List Miss} (table : genes.Perm (tableGenes mrs missions time)) :
    (genes.map OpTimeGene.time).foldr max 0 = longestTime mrs missions time := by
  rw [(table.map OpTimeGene.time).foldr_eq]
  simp [longestTime, tableGenes, List.map_flatMap, Function.comp_def]

omit [DecidableEq Miss] in
theorem length_of_table {missions : List Miss} (table : genes.Perm (tableGenes mrs missions time)) :
    genes.length = mrs.length * missions.length := by
  rw [table.length_eq]
  simp [tableGenes, List.length_flatMap]

variable {matrix : AgentMissionMatrix AgentRef Miss K}

omit [LinearOrder K] [MathPow K] in
theorem load_of_table {agent : AgentRef}
    (holds : ∀ mis ∈ matrix.missions, matrix.getValue agent mis = time agent mis) :
    matrix.load agent = ((matrix.missions.map (time agent)).sum : ℤ) := by
  rw [AgentMissionMatrix.load, List.map_congr_left holds]
  push_cast
  simp [Function.comp_def]

omit [MathPow K] in
theorem maxLoad_of_table [IsStrictOrderedRing K]
    (holds : ∀ agent ∈ matrix.agents, ∀ mis ∈ matrix.missions,
      matrix.getValue agent mis = time agent mis) :
    matrix.maxLoad = longestLoad matrix.agents matrix.missions time := by
  have loads : matrix.agents.map matrix.load = (matrix.agents.map fun agent =>
      (matrix.missions.map (time agent)).sum).map ((↑) : ℤ → K) := by
    rw [List.map_map]
    exact List.map_congr_left fun agent agentMem => load_of_table (holds agent agentMem)
  rw [AgentMissionMatrix.maxLoad, foldl_max_eq_foldr, loads, longestLoad]
  induction matrix.agents.map fun agent => (matrix.missions.map (time agent)).sum with
  | nil => simp
  | cons load rest ih => rw [List.map_cons, List.foldr_cons, List.foldr_cons, ih, Int.cast_max]

variable {project : Project Comp Miss K} {heap : Heap Comp K}

/-- Both codes charge the same energy. -/
theorem energySpent_of_table (table : genes.Perm (tableGenes matrix.agents matrix.missions time))
    (holds : ∀ agent ∈ matrix.agents, ∀ mis ∈ matrix.missions,
      matrix.getValue agent mis = time agent mis) :
    energySpent project heap genes =
      (matrix.agents.map fun agent => Agent.operatingEnergyOf project (heap.components agent) *
        matrix.load agent).sum := by
  rw [energySpent, (table.map _).sum_eq, tableGenes, List.map_flatMap, List.flatMap_def,
    List.sum_flatten, List.map_map]
  congr 1
  refine List.map_congr_left fun agent agentMem => ?_
  rw [Function.comp_apply, List.map_map, AgentMissionMatrix.load, ← List.sum_map_mul_left]
  congr 1
  refine List.map_congr_left fun mis misMem => ?_
  simp [holds agent agentMem mis misMem]

/-- What the fitness function and the matrix charge for a table of times that completes all
work. -/
theorem costs_of_table [IsStrictOrderedRing K] (coherent : heap.Coherent project)
    (allocated : ∀ agent ∈ matrix.agents, agent < heap.next)
    (missions : matrix.missions = project.missions)
    (holds : ∀ agent ∈ matrix.agents, ∀ mis ∈ matrix.missions,
      matrix.getValue agent mis = time agent mis)
    (table : genes.Perm (tableGenes matrix.agents matrix.missions time))
    (complete : ∀ mis ∈ project.missions,
      (project.mission mis).getAmountOfWork ≤ workDone project heap genes mis) (qInv : K) :
    ∃ first second,
      ((new project qInv).evaluate genes).run heap =
        some (energySpent project heap genes +
          (project.costModel.calcSysMaint (matrix.agents.length * matrix.missions.length) +
              project.costModel.systemReplRate * qInv) *
            longestTime matrix.agents matrix.missions time, first) ∧
        (matrix.getCosts project.costModel (Agent.getOperatingEnergy project) qInv).run heap =
          some (energySpent project heap genes +
            (project.costModel.calcSysMaint matrix.agents.length +
                project.costModel.systemReplRate * qInv) *
              longestLoad matrix.agents matrix.missions time, second) := by
  have inTable (gene : OpTimeGene Miss) (geneMem : gene ∈ genes) :
      gene.agent ∈ matrix.agents ∧ gene.mission ∈ matrix.missions := by
    have member := table.mem_iff.mp geneMem
    simp only [tableGenes, List.mem_flatMap, List.mem_map] at member
    rcases member with ⟨agent, agentMem, mis, misMem, rfl⟩
    exact ⟨agentMem, misMem⟩
  have good : Heap.Good project (· < heap.next) heap heap :=
    ⟨coherent, Heap.Extends.refl heap, rfl⟩
  have charges : Computes (Heap.Good project (· < heap.next) heap)
      (matrix.getCosts project.costModel (heapApi project).getOperatingEnergy qInv)
      (matrix.getCosts project.costModel
        (componentsApi project heap.components).getOperatingEnergy qInv).run := by
    refine AverageOpCostCalculator.computes_getCosts (fun agent agentMem => ?_) _ _
    exact computes_getProperty .operatingEnergy (allocated agent agentMem)
      (allocated agent agentMem)
  rcases computes_evaluate (fun gene geneMem => missions ▸ (inTable gene geneMem).2)
      (fun gene geneMem => allocated _ (inTable gene geneMem).1) complete heap good with
    ⟨_, first, evaluateRuns, rfl, -⟩
  rcases charges heap good with ⟨_, second, costRuns, rfl, -⟩
  refine ⟨first, second, ?_, ?_⟩
  · rw [evaluateRuns, longestTime_eq table, length_of_table table]
  · rw [energySpent_of_table table holds, ← maxLoad_of_table holds]
    rw [AgentMissionMatrix.getCosts_id] at costRuns
    exact costRuns

/-- For a table of times that completes all work, the fitness function and the matrix agree on the
operating cost if and only if they agree on the running costs of the system. -/
theorem evaluate_eq_getCosts_iff [IsStrictOrderedRing K] (coherent : heap.Coherent project)
    (allocated : ∀ agent ∈ matrix.agents, agent < heap.next)
    (missions : matrix.missions = project.missions)
    (holds : ∀ agent ∈ matrix.agents, ∀ mis ∈ matrix.missions,
      matrix.getValue agent mis = time agent mis)
    (table : genes.Perm (tableGenes matrix.agents matrix.missions time))
    (complete : ∀ mis ∈ project.missions,
      (project.mission mis).getAmountOfWork ≤ workDone project heap genes mis) (qInv : K) :
    ∃ value cost first second,
      ((new project qInv).evaluate genes).run heap = some (value, first) ∧
        (matrix.getCosts project.costModel (Agent.getOperatingEnergy project) qInv).run heap =
          some (cost, second) ∧
        (value = cost ↔
          (project.costModel.calcSysMaint (matrix.agents.length * matrix.missions.length) +
              project.costModel.systemReplRate * qInv) *
              longestTime matrix.agents matrix.missions time =
            (project.costModel.calcSysMaint matrix.agents.length +
                project.costModel.systemReplRate * qInv) *
              longestLoad matrix.agents matrix.missions time) := by
  rcases costs_of_table coherent allocated missions holds table complete qInv with
    ⟨first, second, evaluateRuns, costRuns⟩
  exact ⟨_, _, first, second, evaluateRuns, costRuns, add_right_inj _⟩

end Tables

section Grass

/-- A matrix of the times of some agents. -/
def timeMatrix {Miss : Type} [DecidableEq Miss] (mrs : List AgentRef) (missions : List Miss)
    (time : AgentRef → Miss → ℤ) : AgentMissionMatrix AgentRef Miss ℚ where
  agents := mrs
  missions := missions
  data i j := (mrs[i]?.bind fun agent => missions[j]?.map fun mis => (time agent mis : ℚ)).getD 0

theorem getValue_timeMatrix {Miss : Type} [DecidableEq Miss] {mrs : List AgentRef}
    {missions : List Miss} (time : AgentRef → Miss → ℤ) :
    ∀ agent ∈ mrs, ∀ mis ∈ missions,
      (timeMatrix mrs missions time).getValue agent mis = time agent mis := by
  intro agent agentMem mis misMem
  simp [timeMatrix, AgentMissionMatrix.getValue, List.getElem?_idxOf agentMem,
    List.getElem?_idxOf misMem]

/-- The grass trimming project without its second mission. -/
def mowingProject : Project GrassComponent GrassMission ℚ :=
  { grassTrimmingProject 1 1 with missions := [.mowing] }

/-- With one mission both codes charge the mower the same. -/
theorem evaluate_eq_getCosts_iff_mowing :
    ∃ heap, mowingProject.Configured heap ∧ ∃ mower ∈ heap.agents, ∃ cost first second,
      ((new mowingProject 5000).evaluate [⟨.mowing, mower, 1⟩]).run heap = some (cost, first) ∧
        ((timeMatrix [mower] mowingProject.missions fun _ _ => 1).getCosts mowingProject.costModel
          (Agent.getOperatingEnergy mowingProject) 5000).run heap = some (cost, second) := by
  rcases mowingProject.exists_configured with ⟨heap, configured, family⟩
  rcases family [.mobileBase, .mowingMachine] (by decide +kernel) with ⟨mower, mowerMem, mows⟩
  have populated := configured.populated
  have allocated : ∀ agent ∈ [mower], agent < heap.next := by
    simpa using populated.allocated mower mowerMem
  refine ⟨heap, configured, mower, mowerMem, ?_⟩
  rcases evaluate_eq_getCosts_iff populated.coherent allocated
      (rfl : (timeMatrix [mower] mowingProject.missions fun _ _ => 1).missions = _)
      (getValue_timeMatrix _) (List.Perm.refl _) (by
        intro mis misMem
        obtain rfl := List.mem_singleton.mp misMem
        simp only [workDone, tableGenes, timeMatrix, mowingProject, List.flatMap_cons,
          List.flatMap_nil, List.map_cons, List.map_nil, List.append_nil, List.filter_cons,
          List.filter_nil, decide_true, if_true, mows]
        decide +kernel) 5000 with ⟨value, cost, first, second, evaluateRuns, costRuns, same⟩
  rcases same.mpr (by simp [timeMatrix, mowingProject, longestTime, longestLoad]) with rfl
  exact ⟨value, first, second, evaluateRuns, costRuns⟩

/-- A mower and a camera robot that work for one unit of time on each of two missions. -/
theorem evaluate_ne_getCosts :
    ∃ heap, (grassTrimmingProject 1 1).Configured heap ∧
      ∃ mower ∈ heap.agents, ∃ watcher ∈ heap.agents,
        (∀ mis ∈ (grassTrimmingProject 1 1).missions,
          ((grassTrimmingProject 1 1).mission mis).getAmountOfWork ≤
            workDone (grassTrimmingProject 1 1) heap
              (tableGenes [mower, watcher] (grassTrimmingProject 1 1).missions fun _ _ => 1) mis) ∧
        ∃ value cost first second, value ≠ cost ∧
          ((new (grassTrimmingProject 1 1) 5000).evaluate
            (tableGenes [mower, watcher] (grassTrimmingProject 1 1).missions
              fun _ _ => 1)).run heap = some (value, first) ∧
          ((timeMatrix [mower, watcher] (grassTrimmingProject 1 1).missions fun _ _ => 1).getCosts
            (grassTrimmingProject 1 1).costModel
              (Agent.getOperatingEnergy (grassTrimmingProject 1 1)) 5000).run heap =
                some (cost, second) := by
  rcases exists_grassAgents 1 1 (by decide +kernel) (by decide +kernel) with
    ⟨heap, configured, mower, mowerMem, watcher, watcherMem, described⟩
  have components := components_of_describe described
  have populated := configured.populated
  have allocated := populated.allocated_pair mowerMem watcherMem
  have complete : ∀ mis ∈ (grassTrimmingProject 1 1).missions,
      ((grassTrimmingProject 1 1).mission mis).getAmountOfWork ≤
        workDone (grassTrimmingProject 1 1) heap
          (tableGenes [mower, watcher] (grassTrimmingProject 1 1).missions fun _ _ => 1) mis := by
    intro mis _
    have missions : (grassTrimmingProject 1 1).missions = [.mowing, .watching] := rfl
    cases mis <;> simp [workDone, tableGenes, missions, components] <;> decide +kernel
  rcases costs_of_table populated.coherent allocated
    (rfl : (timeMatrix [mower, watcher] (grassTrimmingProject 1 1).missions fun _ _ => 1).missions =
      _)
    (getValue_timeMatrix _) (List.Perm.refl _) complete 5000 with
    ⟨first, second, evaluateRuns, costRuns⟩
  refine ⟨heap, configured, mower, mowerMem, watcher, watcherMem, complete, _, _, first, second,
    ?_, evaluateRuns, costRuns⟩
  intro same
  have running := add_left_cancel same
  simp only [timeMatrix, longestTime, longestLoad, List.flatMap_cons, List.flatMap_nil,
    List.map_cons, List.map_nil, List.length_cons, List.length_nil] at running
  revert running
  decide +kernel

end Grass

end MrsOpCostFitnessFunction

end MrsOptimization
