import MrsOptimization.Heuristic.TotalCost

/-!
# Ranking of feasible and infeasible systems

`InverseFitnessEvaluator` prefers the smaller total cost. A system that cannot
perform some mission is charged the finite penalty `nearInfinity` for its
operation, a feasible one its running cost, so the penalty decides the ranking
only up to a bound on the running cost (`isFitter_of_feasible`).
-/

namespace MrsOptimization

variable {Comp Miss K : Type} [DecidableEq Comp] [DecidableEq Miss] [Field K] [LinearOrder K]
  [FloorRing K] [MathPow K]

namespace InverseFitnessEvaluator

def isFitter (a_fitness_value1 a_fitness_value2 : K) : Bool :=
  decide (a_fitness_value1 < a_fitness_value2)

def isFitterChrom (fitness : MrsTotalCostFitnessFunction Comp Miss K)
    (a_chrom1 a_chrom2 : List AgentGene) : HeapM Comp K Bool := do
  let value1 ← fitness.evaluate a_chrom1
  let value2 ← fitness.evaluate a_chrom2
  return isFitter value1 value2

end InverseFitnessEvaluator

section Charges

variable (project : Project Comp Miss K) (genes : List (List Comp × ℤ))

def systemPerformance (mis : Miss) : K :=
  ((instances genes).map (Mission.performanceOf project mis)).sum

def workingTime (components : List Comp) : K :=
  AverageOpCostCalculator.agentLoad (componentsApi project id) (instances genes) project 0
    components

def runningCost (Qinv : K) : K :=
  ((instances genes).map fun components =>
      Agent.operatingEnergyOf project components * workingTime project genes components).sum +
    (project.costModel.calcSysMaint (instances genes).length +
        project.costModel.systemReplRate * Qinv) *
      (instances genes).foldl (fun maxValue components =>
        max (workingTime project genes components) maxValue) 0

end Charges

variable {project : Project Comp Miss K}

/-- The penalty is charged instead of the running cost, whatever its size. -/
theorem operatingCost_cases (genes : List (List Comp × ℤ)) (Qinv : K) :
    operatingCost project genes Qinv =
      if ∃ mis ∈ project.missions, systemPerformance project genes mis = 0 then
        project.config.nearInfinity
      else runningCost project genes Qinv := by
  rw [operatingCost_eq, AverageOpCostCalculator.calcOpCosts_closed]
  rfl

theorem computes_isFitterChrom {heap : Heap Comp K} (configured : project.Configured heap)
    {a b : List AgentGene} (aOverAgents : ∀ gene ∈ a, gene.agent ∈ heap.agents)
    (bOverAgents : ∀ gene ∈ b, gene.agent ∈ heap.agents) :
    Computes (heap.Sound project)
      (InverseFitnessEvaluator.isFitterChrom (MrsTotalCostFitnessFunction.new project) a b)
      (InverseFitnessEvaluator.isFitter
        (cacheFreeCost project (flooredMaxComplexity project) (heap.describe a))
        (cacheFreeCost project (flooredMaxComplexity project) (heap.describe b))) := by
  refine Computes.bind (configured.computes_evaluate a aOverAgents) ?_
  exact Computes.bind (configured.computes_evaluate b bOverAgents) (Computes.pure _)

/-- A feasible system is ranked fitter than an infeasible one exactly when its total cost
stays below the other's investment plus the penalty. -/
theorem isFitter_of_feasible (project : Project Comp Miss K) {heap : Heap Comp K}
    (configured : project.Configured heap) {a b : List AgentGene}
    (aOverAgents : ∀ gene ∈ a, gene.agent ∈ heap.agents)
    (bOverAgents : ∀ gene ∈ b, gene.agent ∈ heap.agents)
    (feasible : ∀ mis ∈ project.missions, 0 < systemPerformance project (heap.describe a) mis)
    (infeasible : ∃ mis ∈ project.missions,
      systemPerformance project (heap.describe b) mis = 0) :
    ∃ final, (InverseFitnessEvaluator.isFitterChrom (MrsTotalCostFitnessFunction.new project)
        a b).run heap =
      some (decide
        (investment project (flooredMaxComplexity project) (heap.describe a) +
            runningCost project (heap.describe a)
              (investment project (flooredMaxComplexity project) (heap.describe a)) <
          investment project (flooredMaxComplexity project) (heap.describe b) +
            project.config.nearInfinity), final) := by
  have sound : heap.Sound project heap :=
    ⟨configured.populated.coherent, Heap.Extends.refl heap⟩
  have aPerforms : ¬∃ mis ∈ project.missions,
      systemPerformance project (heap.describe a) mis = 0 := by
    rintro ⟨mis, misMem, zero⟩
    exact (feasible mis misMem).ne' zero
  rcases computes_isFitterChrom configured aOverAgents bOverAgents heap sound with
    ⟨_, final, runs, rfl, -⟩
  refine ⟨final, runs.trans ?_⟩
  rw [InverseFitnessEvaluator.isFitter, cacheFreeCost, cacheFreeCost, operatingCost_cases,
    operatingCost_cases, if_neg aPerforms, if_pos infeasible]

/-- The mower and the camera robot are ranked fitter than no robot at all. -/
theorem isFitter_of_feasible_grass :
    ∃ heap, (grassTrimmingProject 100 1).Configured heap ∧
      ∃ mower ∈ heap.agents, ∃ watcher ∈ heap.agents, ∃ final,
        (InverseFitnessEvaluator.isFitterChrom
          (MrsTotalCostFitnessFunction.new (grassTrimmingProject 100 1))
          [⟨mower, 1⟩, ⟨watcher, 1⟩] []).run heap = some (true, final) := by
  rcases exists_grassAgents 100 1 (by decide +kernel) (by decide +kernel) with
    ⟨heap, configured, mower, mowerMem, watcher, watcherMem, described⟩
  refine ⟨heap, configured, mower, mowerMem, watcher, watcherMem, ?_⟩
  have runs := isFitter_of_feasible (grassTrimmingProject 100 1) configured
    (a := [⟨mower, 1⟩, ⟨watcher, 1⟩]) (b := []) (by simp [mowerMem, watcherMem]) (by simp)
    (by rw [described]; decide +kernel) ⟨.mowing, by decide, rfl⟩
  rcases runs with ⟨final, runs⟩
  refine ⟨final, runs.trans ?_⟩
  rw [described, show heap.describe [] = [] from rfl]
  congr 2
  decide +kernel

/-- Mowing a square with a side of ten million kilometres costs a feasible system more than
the penalty of having no robot at all. -/
theorem not_isFitter_of_large_area :
    ∃ heap, (grassTrimmingProject (10 ^ 10) 1).Configured heap ∧
      ∃ a b : List AgentGene, (∀ gene ∈ a, gene.agent ∈ heap.agents) ∧
        (∀ gene ∈ b, gene.agent ∈ heap.agents) ∧
        (∀ mis ∈ (grassTrimmingProject (10 ^ 10) 1).missions,
          0 < systemPerformance (grassTrimmingProject (10 ^ 10) 1) (heap.describe a) mis) ∧
        (∃ mis ∈ (grassTrimmingProject (10 ^ 10) 1).missions,
          systemPerformance (grassTrimmingProject (10 ^ 10) 1) (heap.describe b) mis = 0) ∧
        ∃ final, (InverseFitnessEvaluator.isFitterChrom
          (MrsTotalCostFitnessFunction.new (grassTrimmingProject (10 ^ 10) 1)) a b).run heap =
            some (false, final) := by
  rcases exists_grassAgents (10 ^ 10) 1 (by decide +kernel) (by decide +kernel) with
    ⟨heap, configured, mower, mowerMem, watcher, watcherMem, described⟩
  have aOverAgents : ∀ gene ∈ [⟨mower, 1⟩, ⟨watcher, 1⟩],
      AgentGene.agent gene ∈ heap.agents := by simp [mowerMem, watcherMem]
  have bOverAgents : ∀ gene ∈ ([] : List AgentGene), gene.agent ∈ heap.agents := by simp
  have sound : heap.Sound (grassTrimmingProject (10 ^ 10) 1) heap :=
    ⟨configured.populated.coherent, Heap.Extends.refl heap⟩
  refine ⟨heap, configured, _, _, aOverAgents, bOverAgents, ?_, ⟨.mowing, by decide, rfl⟩, ?_⟩
  · rw [described]
    decide +kernel
  · rcases computes_isFitterChrom configured aOverAgents bOverAgents heap sound with
      ⟨_, final, runs, rfl, -⟩
    refine ⟨final, runs.trans ?_⟩
    rw [described, show heap.describe [] = [] from rfl]
    congr 2
    decide +kernel

end MrsOptimization
