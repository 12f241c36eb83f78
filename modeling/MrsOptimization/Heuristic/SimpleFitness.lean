import MrsOptimization.Heuristic.TotalCost

/-!
# The simple fitness function

`MrsSimpleFitnessFunction.evaluate` tests whether the active agents together have all
system components, and then overwrites the value it has computed from the test. What
remains is the ranking by investment costs, for complete and incomplete chromosomes alike.
-/

namespace MrsOptimization

structure MrsSimpleFitnessFunction (Comp : Type) where
  systemComponents : List Comp

namespace MrsSimpleFitnessFunction

variable {Comp Miss K : Type} [DecidableEq Comp] [Field K] [LinearOrder K] [MathPow K]

section Code

/-- The body of the loop over the genes, with the local variables `comps` and
`investmentCosts`. -/
def evaluateGene (project : Project Comp Miss K) (acc : Finset Comp × K) (gene : AgentGene) :
    HeapM Comp K (Finset Comp × K) := do
  if 0 < gene.instances then
    let productionCosts ← Agent.getProductionCosts project gene.agent
    let heap ← get
    return ((heap.components gene.agent).foldl (fun comps comp => insert comp comps) acc.1,
      acc.2 + productionCosts * gene.instances)
  else
    return acc

/-- Less the log entry with the hash of the solution. -/
def evaluate (fitness : MrsSimpleFitnessFunction Comp) (project : Project Comp Miss K)
    (genes : List AgentGene) : HeapM Comp K K := do
  let mut value : K := 0
  let (comps, investmentCosts) ← genes.foldlM (evaluateGene project) (∅, 0)
  if !fitness.systemComponents.all (· ∈ comps) then
    value := comps.card / fitness.systemComponents.length * (100 : ℕ)
  value := (10 ^ 11 : ℕ) - investmentCosts
  return value

end Code

section Specification

variable (project : Project Comp Miss K) (heap : Heap Comp K)

/-- The components of the active agents. -/
def activeComponents (genes : List AgentGene) : Finset Comp :=
  ((activeGenes (heap.describe genes)).flatMap Prod.fst).toFinset

/-- The production costs of all instances. -/
def investmentCosts (genes : List AgentGene) : K :=
  ((activeGenes (heap.describe genes)).map fun gene =>
    instanceCost project (flooredMaxComplexity project) gene.1 * gene.2).sum

/-- The active agents together contain every system component. -/
def Complete (systemComponents : List Comp) (genes : List AgentGene) : Prop :=
  ∀ comp ∈ systemComponents, comp ∈ activeComponents heap genes

end Specification

section Evaluation

variable {project : Project Comp Miss K} {heap : Heap Comp K} {genes : List AgentGene}

omit [Field K] [LinearOrder K] [MathPow K] in
theorem foldl_insert (components : List Comp) (comps : Finset Comp) :
    components.foldl (fun comps comp => insert comp comps) comps =
      comps ∪ components.toFinset := by
  induction components generalizing comps with
  | nil => simp
  | cons comp rest ih =>
      rw [List.foldl_cons, ih, List.toFinset_cons, Finset.insert_union, Finset.union_insert]

theorem computes_evaluateGene (acc : Finset Comp × K) {gene : AgentGene}
    (below : gene.agent < heap.next) :
    Computes (Heap.Good project (· < heap.next) heap) (evaluateGene project acc gene)
      (acc.1 ∪ activeComponents heap [gene], acc.2 + investmentCosts project heap [gene]) := by
  rw [evaluateGene]
  by_cases active : 0 < gene.instances
  · rw [if_pos active]
    refine Computes.bind (computes_getProperty .productionCosts below below) ?_
    intro store good
    have described : activeGenes (heap.describe [gene]) =
        [(heap.components gene.agent, gene.instances)] := by
      simp [Heap.describe, activeGenes, active]
    refine ⟨_, store, rfl, ?_, good⟩
    simp [good.ext.components_eq below, foldl_insert, activeComponents, investmentCosts, described,
      calculateValue_productionCosts]
  · rw [if_neg active]
    have empty : activeGenes (heap.describe [gene]) = [] := by
      simp [Heap.describe, activeGenes, active]
    simpa [activeComponents, investmentCosts, empty] using Computes.pure acc

/-- The loop gathers the components and the production costs of the active agents. -/
theorem computes_evaluateGenes (acc : Finset Comp × K)
    (allocated : ∀ gene ∈ genes, gene.agent < heap.next) :
    Computes (Heap.Good project (· < heap.next) heap) (genes.foldlM (evaluateGene project) acc)
      (acc.1 ∪ activeComponents heap genes, acc.2 + investmentCosts project heap genes) := by
  induction genes generalizing acc with
  | nil =>
      simpa [activeComponents, investmentCosts, Heap.describe, activeGenes] using
        Computes.pure acc
  | cons gene rest ih =>
      rw [List.foldlM_cons]
      refine Computes.bind (computes_evaluateGene acc (allocated gene List.mem_cons_self)) ?_
      have later := ih (acc.1 ∪ activeComponents heap [gene],
        acc.2 + investmentCosts project heap [gene])
        fun other otherMem => allocated other (List.mem_cons_of_mem gene otherMem)
      have split : activeGenes (heap.describe (gene :: rest)) =
          activeGenes (heap.describe [gene]) ++ activeGenes (heap.describe rest) := by
        rw [activeGenes, activeGenes, activeGenes, ← List.filter_append]
        rfl
      simpa [activeComponents, investmentCosts, split, Finset.union_assoc, add_assoc] using later

/-- The value does not tell whether a chromosome is complete. -/
theorem computes_evaluate (systemComponents : List Comp)
    (allocated : ∀ gene ∈ genes, gene.agent < heap.next) :
    Computes (Heap.Good project (· < heap.next) heap)
      ((MrsSimpleFitnessFunction.mk systemComponents).evaluate project genes)
      ((10 ^ 11 : ℕ) - investmentCosts project heap genes) := by
  rw [evaluate]
  refine Computes.bind (computes_evaluateGenes _ allocated) ?_
  dsimp only
  rw [zero_add]
  split
  · exact Computes.pure _
  · exact Computes.pure _

/-- A complete chromosome gets a higher value than an incomplete one if and only if its
instances cost less. -/
theorem evaluate_complete_iff [IsStrictOrderedRing K] (systemComponents : List Comp)
    (coherent : heap.Coherent project) {left right : List AgentGene}
    (allocated : ∀ gene ∈ left ++ right, gene.agent < heap.next) :
    ∃ leftValue rightValue first second,
      ((MrsSimpleFitnessFunction.mk systemComponents).evaluate project left).run heap =
        some (leftValue, first) ∧
      ((MrsSimpleFitnessFunction.mk systemComponents).evaluate project right).run heap =
        some (rightValue, second) ∧
      ((Complete heap systemComponents left → ¬Complete heap systemComponents right →
          rightValue < leftValue) ↔
        (Complete heap systemComponents left → ¬Complete heap systemComponents right →
          investmentCosts project heap left < investmentCosts project heap right)) := by
  have good : Heap.Good project (· < heap.next) heap heap :=
    ⟨coherent, Heap.Extends.refl heap, rfl⟩
  rcases computes_evaluate systemComponents
    (fun gene geneMem => allocated gene (List.mem_append_left _ geneMem)) heap good with
    ⟨_, first, leftRuns, rfl, -⟩
  rcases computes_evaluate systemComponents
    (fun gene geneMem => allocated gene (List.mem_append_right _ geneMem)) heap good with
    ⟨_, second, rightRuns, rfl, -⟩
  refine ⟨_, _, first, second, leftRuns, rightRuns, ?_⟩
  rw [sub_lt_sub_iff_left]

end Evaluation

section Grass

/-- All components of the grass trimming project are system components. -/
def grassFitness : MrsSimpleFitnessFunction GrassComponent :=
  ⟨(grassTrimmingProject 100 1).components⟩

/-- What the chromosomes of a mower and a camera robot contain and cost. -/
theorem grass_costs {heap : Heap GrassComponent ℚ} {mower watcher : AgentRef}
    (described : ∀ mowers watchers, heap.describe [⟨mower, mowers⟩, ⟨watcher, watchers⟩] =
      [([.mobileBase, .mowingMachine], mowers), ([.camera], watchers)]) (watchers : ℤ) :
    (Complete heap grassFitness.systemComponents [⟨mower, 1⟩, ⟨watcher, 1⟩] ∧
      ¬Complete heap grassFitness.systemComponents [⟨mower, 0⟩, ⟨watcher, watchers⟩]) ∧
    investmentCosts (grassTrimmingProject 100 1) heap [⟨mower, 1⟩, ⟨watcher, 1⟩] = 2577 / 10 ∧
      (0 < watchers → investmentCosts (grassTrimmingProject 100 1) heap
        [⟨mower, 0⟩, ⟨watcher, watchers⟩] = 1053 / 10 * watchers) := by
  have mowerCost : instanceCost (grassTrimmingProject 100 1)
      (flooredMaxComplexity (grassTrimmingProject 100 1)) [.mobileBase, .mowingMachine] =
        762 / 5 := by decide +kernel
  have watcherCost : instanceCost (grassTrimmingProject 100 1)
      (flooredMaxComplexity (grassTrimmingProject 100 1)) [.camera] = 1053 / 10 := by
    decide +kernel
  refine ⟨⟨?_, ?_⟩, ?_, fun active => ?_⟩
  · simp [Complete, activeComponents, described, activeGenes, grassFitness, grassTrimmingProject]
  · simp only [Complete, activeComponents, described, activeGenes]
    intro covers
    have base := covers .mobileBase (by simp [grassFitness, grassTrimmingProject])
    by_cases active : 0 < watchers <;> simp [active] at base
  · simp only [investmentCosts, described, activeGenes]
    simp [mowerCost, watcherCost]
    norm_num
  · simp [investmentCosts, described, activeGenes, active, watcherCost]

/-- A mower and a camera robot rank above three camera robots, which cost more. -/
theorem evaluate_complete_iff_grass :
    ∃ heap, (grassTrimmingProject 100 1).Configured heap ∧
      ∃ mower ∈ heap.agents, ∃ watcher ∈ heap.agents, ∃ complete incomplete first second,
        (grassFitness.evaluate (grassTrimmingProject 100 1) [⟨mower, 1⟩, ⟨watcher, 1⟩]).run heap =
          some (complete, first) ∧
        (grassFitness.evaluate (grassTrimmingProject 100 1) [⟨mower, 0⟩, ⟨watcher, 3⟩]).run heap =
          some (incomplete, second) ∧ incomplete < complete := by
  rcases exists_grassAgents 100 1 (by decide +kernel) (by decide +kernel) with
    ⟨heap, configured, mower, mowerMem, watcher, watcherMem, described⟩
  have populated := configured.populated
  have allocated : ∀ gene ∈ ([⟨mower, 1⟩, ⟨watcher, 1⟩] ++ [⟨mower, 0⟩, ⟨watcher, 3⟩] :
      List AgentGene), gene.agent < heap.next := by
    simp [populated.allocated mower mowerMem, populated.allocated watcher watcherMem]
  rcases evaluate_complete_iff grassFitness.systemComponents populated.coherent allocated with
    ⟨complete, incomplete, first, second, completeRuns, incompleteRuns, ranks⟩
  rcases grass_costs described 3 with ⟨⟨covers, misses⟩, cost, watchersCost⟩
  refine ⟨heap, configured, mower, mowerMem, watcher, watcherMem, complete, incomplete, first,
    second, completeRuns, incompleteRuns, ranks.mpr (fun _ _ => ?_) covers misses⟩
  rw [cost, watchersCost (by decide)]
  norm_num

/-- A single camera robot misses the mower's components and ranks above the complete system. -/
theorem evaluate_prefers_incomplete :
    ∃ heap, (grassTrimmingProject 100 1).Configured heap ∧
      ∃ mower ∈ heap.agents, ∃ watcher ∈ heap.agents, ∃ complete incomplete first second,
        Complete heap grassFitness.systemComponents [⟨mower, 1⟩, ⟨watcher, 1⟩] ∧
        ¬Complete heap grassFitness.systemComponents [⟨mower, 0⟩, ⟨watcher, 1⟩] ∧
        (grassFitness.evaluate (grassTrimmingProject 100 1) [⟨mower, 1⟩, ⟨watcher, 1⟩]).run heap =
          some (complete, first) ∧
        (grassFitness.evaluate (grassTrimmingProject 100 1) [⟨mower, 0⟩, ⟨watcher, 1⟩]).run heap =
          some (incomplete, second) ∧ complete < incomplete := by
  rcases exists_grassAgents 100 1 (by decide +kernel) (by decide +kernel) with
    ⟨heap, configured, mower, mowerMem, watcher, watcherMem, described⟩
  have populated := configured.populated
  have good : Heap.Good (grassTrimmingProject 100 1) (· < heap.next) heap heap :=
    ⟨populated.coherent, Heap.Extends.refl heap, rfl⟩
  have evaluates (mowers watchers : ℤ) := @computes_evaluate _ _ _ _ _ _ _
    (grassTrimmingProject 100 1) heap [⟨mower, mowers⟩, ⟨watcher, watchers⟩]
    grassFitness.systemComponents (by
      simp [populated.allocated mower mowerMem, populated.allocated watcher watcherMem])
  rcases evaluates 1 1 heap good with ⟨_, first, completeRuns, rfl, -⟩
  rcases evaluates 0 1 heap good with ⟨_, second, incompleteRuns, rfl, -⟩
  rcases grass_costs described 1 with ⟨⟨covers, misses⟩, cost, watchersCost⟩
  refine ⟨heap, configured, mower, mowerMem, watcher, watcherMem, _, _, first, second, covers,
    misses, completeRuns, incompleteRuns, ?_⟩
  rw [cost, watchersCost (by decide)]
  norm_num

end Grass

end MrsSimpleFitnessFunction

end MrsOptimization
