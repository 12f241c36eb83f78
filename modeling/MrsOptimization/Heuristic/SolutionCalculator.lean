import MrsOptimization.Heuristic.TotalCost

/-!
# The breakdown of a solution

`SolutionCalculator.process` computes the parts of the cost of a solution once more. It
makes its time matrix without a project, and the constructor of the matrix asks this
project for its missions, so the calculation never gets beyond that line.
-/

namespace MrsOptimization

variable {A Comp Miss K : Type} [DecidableEq Miss] [Field K] [LinearOrder K] [FloorRing K]
  [MathPow K]

/-- The constructor `AgentMissionMatrix(List, Project)`; `none` is the null reference. -/
def AgentMissionMatrix.ofProject (agents : List A) (project : Option (Project Comp Miss K)) :
    HeapM Comp K (AgentMissionMatrix A Miss K) :=
  match project with
  | some project => return AgentMissionMatrix.new agents project.missions
  | none => failure

/-- `SolutionCalculator`, less the maximal complexity and the assembly costs it does not use. -/
structure SolutionCalculator (Comp Miss K : Type) where
  solution : List AgentGene
  project : Project Comp Miss K
  Qinv : K
  Qsys_design : K
  Qdesign : K
  Qprod : K
  Qoper : K
  Qrepl : K

namespace SolutionCalculator

section Code

def new (solution : List AgentGene) (project : Project Comp Miss K) :
    SolutionCalculator Comp Miss K :=
  ⟨solution, project, 0, 0, 0, 0, 0, 0⟩

/-- The body of the first loop, which also collects the clones in `opAgentList`. -/
def processGene (calculator : SolutionCalculator Comp Miss K) (opAgentList : List AgentRef)
    (agentGene : AgentGene) : HeapM Comp K (SolutionCalculator Comp Miss K × List AgentRef) := do
  if 0 < agentGene.instances then
    let designCosts ← Agent.getDesignCosts calculator.project agentGene.agent
    let productionCosts ← Agent.getProductionCosts calculator.project agentGene.agent
    let opAgentList ← (List.range agentGene.instances.toNat).foldlM (fun opAgentList _ => do
      let clone ← Agent.clone agentGene.agent
      return opAgentList ++ [clone]) opAgentList
    return ({ calculator with
      Qdesign := calculator.Qdesign + designCosts
      Qprod := calculator.Qprod + productionCosts * agentGene.instances }, opAgentList)
  else
    return (calculator, opAgentList)

/-- The body of the loop over the missions; rounding an infinite quotient fails. -/
def fillMission (project : Project Comp Miss K) (agents : List AgentRef)
    (timeMatrix : AgentMissionMatrix AgentRef Miss K) (mis : Miss) :
    HeapM Comp K (AgentMissionMatrix AgentRef Miss K) := do
  let totalPerf ← agents.foldlM (fun totalPerf agent => do
    let performance ← Mission.performance project mis agent
    return totalPerf + performance) 0
  agents.foldlM (fun timeMatrix agent => do
    let performance ← Mission.performance project mis agent
    if 0 < performance then
      if totalPerf = 0 then failure
      else
        return timeMatrix.setValue agent mis
          (roundUp 0 ((project.mission mis).getAmountOfWork / totalPerf))
    else
      return timeMatrix) timeMatrix

/-- The calculator after `process`, less the printing of the matrix. -/
def process (calculator : SolutionCalculator Comp Miss K) :
    HeapM Comp K (SolutionCalculator Comp Miss K) := do
  let (calculator, agents) ← calculator.solution.foldlM
    (fun (calculator, opAgentList) agentGene => calculator.processGene opAgentList agentGene)
    (calculator, [])
  let project := calculator.project
  let Qinv := calculator.Qsys_design + calculator.Qdesign + calculator.Qprod
  let timeMatrix ← AgentMissionMatrix.ofProject agents (none : Option (Project Comp Miss K))
  let timeMatrix ← project.missions.foldlM (fillMission project agents) timeMatrix
  let Qoper ← timeMatrix.getCosts project.costModel (Agent.getOperatingEnergy project) Qinv
  let Qrepl := project.costModel.systemReplRate * timeMatrix.getSysTime * Qinv
  return { calculator with Qinv := Qinv, Qoper := Qoper, Qrepl := Qrepl }

end Code

/-- `process` completes, and its investment and operating costs add up to the value of the
chromosome with the same genes. -/
def AddsUp [DecidableEq Comp] (project : Project Comp Miss K) (heap : Heap Comp K)
    (genes : List AgentGene) : Prop :=
  ∃ calculator value processed evaluated,
    (new genes project).process.run heap = some (calculator, processed) ∧
      ((MrsTotalCostFitnessFunction.new project).evaluate genes).run heap =
        some (value, evaluated) ∧
      calculator.Qinv + calculator.Qoper = value

/-- The matrix without a project is never made. -/
theorem process_run (calculator : SolutionCalculator Comp Miss K) (heap : Heap Comp K) :
    calculator.process.run heap = none := by
  refine run_bind_eq_none (fun gathered store => ?_) heap
  rfl

/-- The breakdown of a solution never adds up. -/
theorem not_addsUp [DecidableEq Comp] (project : Project Comp Miss K) (heap : Heap Comp K)
    (genes : List AgentGene) : ¬AddsUp project heap genes := by
  rintro ⟨calculator, value, processed, evaluated, runs, -⟩
  rw [process_run] at runs
  cases runs

/-- A mower and a camera robot, which perform both missions of the grass trimming project. -/
theorem not_addsUp_grass :
    ∃ heap, (grassTrimmingProject 100 1).Configured heap ∧
      ∃ mower ∈ heap.agents, ∃ watcher ∈ heap.agents,
        (∀ mis ∈ (grassTrimmingProject 100 1).missions,
          0 < ([mower, watcher].map fun agent =>
            Mission.performanceOf (grassTrimmingProject 100 1) mis (heap.components agent)).sum) ∧
        ¬AddsUp (grassTrimmingProject 100 1) heap [⟨mower, 1⟩, ⟨watcher, 1⟩] := by
  rcases exists_grassAgents 100 1 (by decide +kernel) (by decide +kernel) with
    ⟨heap, configured, mower, mowerMem, watcher, watcherMem, described⟩
  have components := components_of_describe described
  refine ⟨heap, configured, mower, mowerMem, watcher, watcherMem, fun mis _ => ?_, ?_⟩
  · simp only [List.map_cons, List.map_nil, components.1, components.2]
    cases mis <;> decide +kernel
  · rintro ⟨calculator, value, processed, evaluated, runs, -⟩
    rw [process_run] at runs
    cases runs

end SolutionCalculator

end MrsOptimization
