import MrsOptimization.Heuristic.Generation
import MrsOptimization.Heuristic.OperatingCost
import MrsOptimization.Library.FilledMaps

/-!
# The total cost fitness function

`MrsTotalCostFitnessFunction.evaluate` reads design and production costs from
the cached properties of the agents of a chromosome, clones an agent for every
instance and lets `AverageOpCostCalculator` charge the clones. `cacheFreeCost`
states the same cost for component lists, without any object. The two agree on
every heap in which the shared property objects are coherent (`evaluate_run`),
and coherence survives the evaluation.
-/

namespace MrsOptimization

/-- `AgentGene`: an agent and its allele, the number of instances. -/
structure AgentGene where
  agent : AgentRef
  instances : ℤ

structure Evaluation (Comp K : Type) where
  Qinv : K
  comps : Comp → Option ℤ
  opAgentList : List AgentRef

/-- `MrsTotalCostFitnessFunction`; `compsMap` starts every evaluation. -/
structure MrsTotalCostFitnessFunction (Comp Miss K : Type) where
  project : Project Comp Miss K
  compsMap : Comp → Option ℤ
  opCostScale : ℕ

section Evaluate

variable {A Comp Miss K : Type} [DecidableEq A] [DecidableEq Comp] [DecidableEq Miss]
  [Field K] [LinearOrder K] [FloorRing K] [MathPow K]

/-- Agents as the heap knows them. -/
def heapApi (project : Project Comp Miss K) : AgentApi (HeapM Comp K) AgentRef Miss K where
  getAgentPerformance := Mission.performance project
  getOperatingEnergy := Agent.getOperatingEnergy project

/-- Agents that are nothing but their components. -/
def componentsApi (project : Project Comp Miss K) (components : A → List Comp) :
    AgentApi Id A Miss K where
  getAgentPerformance mis agent := return Mission.performanceOf project mis (components agent)
  getOperatingEnergy agent := return Agent.operatingEnergyOf project (components agent)

namespace MrsTotalCostFitnessFunction

def new (project : Project Comp Miss K) : MrsTotalCostFitnessFunction Comp Miss K where
  project := project
  compsMap := project.components.foldl (fun map c => Function.update map c (some 0)) fun _ => none
  opCostScale := 0

/-- `comps.put(comp, comps.get(comp) + 1)`, which fails on a component that is not a key. -/
def countComponent (comps : Comp → Option ℤ) (comp : Comp) : HeapM Comp K (Comp → Option ℤ) :=
  match comps comp with
  | some count => return Function.update comps comp (some (count + 1))
  | none => failure

def evaluateGene (project : Project Comp Miss K) (acc : Evaluation Comp K) (gene : AgentGene) :
    HeapM Comp K (Evaluation Comp K) := do
  if 0 < gene.instances then
    let designCosts ← Agent.getDesignCosts project gene.agent
    let productionCosts ← Agent.getProductionCosts project gene.agent
    let heap ← get
    let comps ← (heap.components gene.agent).foldlM countComponent acc.comps
    let opAgentList ← (List.range gene.instances.toNat).foldlM (fun opAgentList _ => do
      let clone ← Agent.clone gene.agent
      return opAgentList ++ [clone]) acc.opAgentList
    return ⟨acc.Qinv + designCosts + productionCosts * gene.instances, comps, opAgentList⟩
  else
    return acc

def evaluate (fitness : MrsTotalCostFitnessFunction Comp Miss K) (genes : List AgentGene) :
    HeapM Comp K K := do
  let project := fitness.project
  let acc ← genes.foldlM (evaluateGene project) ⟨0, fitness.compsMap, []⟩
  let Qinv := acc.Qinv + project.costModel.calcSysDesign acc.opAgentList.length
  let Qoper ← AverageOpCostCalculator.calcOpCosts project fitness.opCostScale (heapApi project)
    acc.opAgentList Qinv
  return Qinv + Qoper

end MrsTotalCostFitnessFunction

/-- `Project.configure`, less the settings of the genetic algorithm. -/
def Project.configure (project : Project Comp Miss K) :
    HeapM Comp K (MrsTotalCostFitnessFunction Comp Miss K) := do
  let _ ← project.generateAgents
  return MrsTotalCostFitnessFunction.new project

/-- The heaps of a project that has been configured, any number of times. -/
inductive Project.Configured (project : Project Comp Miss K) : Heap Comp K → Prop where
  | created : Project.Configured project Heap.empty
  | configure {heap final : Heap Comp K} {fitness : MrsTotalCostFitnessFunction Comp Miss K}
      (earlier : Project.Configured project heap)
      (runs : project.configure.run heap = some (fitness, final)) :
      Project.Configured project final

end Evaluate

section Specification

variable {Comp Miss K : Type} [DecidableEq Miss] [Field K] [LinearOrder K] [FloorRing K]
  [MathPow K] (project : Project Comp Miss K) (maxComplexity : List Comp → K)

def instanceCost (components : List Comp) : K :=
  (components.map fun comp => (project.component comp).investmentCosts).sum +
    project.costModel.calcAssembly components.length (maxComplexity components)

def activeGenes (genes : List (List Comp × ℤ)) : List (List Comp × ℤ) :=
  genes.filter fun gene => 0 < gene.2

def instances (genes : List (List Comp × ℤ)) : List (List Comp) :=
  (activeGenes genes).flatMap fun gene => List.replicate gene.2.toNat gene.1

def developmentCost (genes : List (List Comp × ℤ)) : K :=
  ((activeGenes genes).map fun gene => project.costModel.calcDesign gene.1.length +
    gene.2 * instanceCost project maxComplexity gene.1).sum

def investment (genes : List (List Comp × ℤ)) : K :=
  developmentCost project maxComplexity genes +
    project.costModel.calcSysDesign (instances genes).length

/-- The operating cost of the instances when nothing is cached. -/
def operatingCost (genes : List (List Comp × ℤ)) (Qinv : K) : K :=
  (AverageOpCostCalculator.calcOpCosts project 0
    (componentsApi project fun index => (instances genes)[index]?.getD [])
    (List.range (instances genes).length) Qinv).run

/-- The cost of a chromosome, given by components and instance numbers. -/
def cacheFreeCost (genes : List (List Comp × ℤ)) : K :=
  investment project maxComplexity genes +
    operatingCost project genes (investment project maxComplexity genes)

/-- The maximum that `productionCosts` computes: it starts from zero. -/
def flooredMaxComplexity (components : List Comp) : K :=
  (components.map fun comp => (project.component comp).complexity).foldr max 0

end Specification

section Correctness

variable {A Comp Miss K : Type} [Field K] [LinearOrder K] [MathPow K]
  {project : Project Comp Miss K}

theorem calculateValue_productionCosts (components : List Comp) :
    calculateValue project .productionCosts components =
      instanceCost project (flooredMaxComplexity project) components := by
  have loop : ∀ (rest : List Comp) (costs maxComplexity : K),
      rest.foldl (fun (acc : K × K) comp =>
        (acc.1 + (project.component comp).investmentCosts,
          max acc.2 (project.component comp).complexity)) (costs, maxComplexity) =
        (costs + (rest.map fun comp => (project.component comp).investmentCosts).sum,
          rest.foldl (fun maxValue comp => max (project.component comp).complexity maxValue)
            maxComplexity) := by
    intro rest
    induction rest with
    | nil => simp
    | cons comp rest ih =>
        intro costs maxComplexity
        rw [List.foldl_cons, ih, List.foldl_cons, List.map_cons, List.sum_cons, add_assoc,
          max_comm maxComplexity]
  have folded := loop components 0 0
  rw [zero_add, foldl_max_eq_foldr] at folded
  simp only [calculateValue, folded]
  rfl

theorem activeGenes_append (genes : List (List Comp × ℤ)) (gene : List Comp × ℤ) :
    activeGenes (genes ++ [gene]) =
      activeGenes genes ++ if 0 < gene.2 then [gene] else [] := by
  rw [activeGenes, List.filter_append]
  by_cases active : 0 < gene.2
  · simp [activeGenes, active]
  · simp [activeGenes, active]

theorem instances_append (genes : List (List Comp × ℤ)) (gene : List Comp × ℤ) :
    instances (genes ++ [gene]) =
      instances genes ++ if 0 < gene.2 then List.replicate gene.2.toNat gene.1 else [] := by
  rw [instances, activeGenes_append, List.flatMap_append]
  by_cases active : 0 < gene.2
  · simp [instances, active]
  · simp [instances, active]

omit [LinearOrder K] in
theorem developmentCost_append (maxComplexity : List Comp → K) (genes : List (List Comp × ℤ))
    (gene : List Comp × ℤ) :
    developmentCost project maxComplexity (genes ++ [gene]) =
      developmentCost project maxComplexity genes +
        if 0 < gene.2 then project.costModel.calcDesign gene.1.length +
          gene.2 * instanceCost project maxComplexity gene.1 else 0 := by
  rw [developmentCost, activeGenes_append, List.map_append, List.sum_append]
  by_cases active : 0 < gene.2
  · simp [developmentCost, active]
  · simp [developmentCost, active]

/-- `heap` is coherent and still has the agents of `base`. -/
structure Heap.Sound (project : Project Comp Miss K) (base heap : Heap Comp K) : Prop where
  coherent : heap.Coherent project
  ext : base.Extends heap

/-- The agents exist and have the given components. -/
structure Heap.Lists (heap : Heap Comp K) (agents : List AgentRef)
    (families : List (List Comp)) : Prop where
  allocated : ∀ agent ∈ agents, agent < heap.next
  components_eq : agents.map heap.components = families

variable {base heap : Heap Comp K}

omit [Field K] [LinearOrder K] [MathPow K] in
theorem Heap.Lists.mono {other : Heap Comp K} {agents : List AgentRef}
    {families : List (List Comp)} (lists : heap.Lists agents families)
    (ext : heap.Extends other) : other.Lists agents families where
  allocated agent agentMem := (lists.allocated agent agentMem).trans_le ext.next_le
  components_eq := by
    rw [← lists.components_eq]
    apply List.map_congr_left
    intro agent agentMem
    exact ext.components_eq (lists.allocated agent agentMem)

/-- Reading a cached property also keeps what is known of the listed agents. -/
theorem computes_property_of_sound (property : Property) {agent : AgentRef}
    (below : agent < base.next) {agents : List AgentRef} {families : List (List Comp)} :
    Computes (fun heap => base.Sound project heap ∧ heap.Lists agents families)
      (Agent.getProperty project property agent)
      (calculateValue project property (base.components agent)) := by
  rintro heap ⟨sound, lists⟩
  have heapBelow := below.trans_le sound.ext.next_le
  have read : Computes (Heap.Good project (· < heap.next) heap)
      (Agent.getProperty project property agent)
      (calculateValue project property (heap.components agent)) :=
    computes_getProperty property heapBelow heapBelow
  rcases read heap ⟨sound.coherent, Heap.Extends.refl heap, rfl⟩ with
    ⟨value, final, runs, equal, good⟩
  rw [sound.ext.components_eq below] at equal
  refine ⟨value, final, runs, equal, ⟨fun other otherBelow => ?_, sound.ext.trans good.ext⟩,
    lists.mono good.ext⟩
  exact good.coherent other (good.next_eq ▸ otherBelow)

theorem triple_clones {agent : AgentRef} (below : agent < base.next) (count : ℕ)
    {clones : List AgentRef} {families : List (List Comp)} :
    Triple (fun heap => base.Sound project heap ∧ heap.Lists clones families)
      ((List.range count).foldlM (fun opAgentList _ => do
        let clone ← Agent.clone agent
        return opAgentList ++ [clone]) clones)
      fun opAgentList heap => base.Sound project heap ∧
        heap.Lists opAgentList (families ++ List.replicate count (base.components agent)) := by
  let cloned : List ℕ → List (List Comp) := fun indices =>
    families ++ List.replicate indices.length (base.components agent)
  have start : cloned [] = families := List.append_nil families
  have finish : cloned (List.range count) =
      families ++ List.replicate count (base.components agent) := by simp [cloned]
  rw [← finish]
  nth_rewrite 1 [← start]
  apply Triple.foldlM fun indices opAgentList heap =>
    base.Sound project heap ∧ heap.Lists opAgentList (cloned indices)
  rintro indices index rest opAgentList split heap ⟨sound, lists⟩
  have heapBelow := below.trans_le sound.ext.next_le
  have ext := heap.extends_add (heap.cloneObject agent)
  refine ⟨opAgentList ++ [heap.next], heap.add (heap.cloneObject agent), ?_,
    ⟨sound.coherent.add_clone heapBelow, sound.ext.trans ext⟩, ?_, ?_⟩
  · rw [StateT.run_bind, clone_run heapBelow]
    rfl
  · intro other otherMem
    rcases List.mem_append.mp otherMem with old | new
    · exact (lists.mono ext).allocated other old
    · rw [List.mem_singleton.mp new]
      exact Nat.lt_succ_self heap.next
  · have newComponents : (heap.add (heap.cloneObject agent)).components heap.next =
        base.components agent := by
      rw [Heap.components, Heap.add_object_self, ← sound.ext.components_eq below]
      rfl
    rw [List.map_append, (lists.mono ext).components_eq, List.map_singleton, newComponents]
    simp [cloned, List.replicate_succ']

/-- A gene list by the components its agents have in `base`. -/
def Heap.describe (base : Heap Comp K) (genes : List AgentGene) : List (List Comp × ℤ) :=
  genes.map fun gene => (base.components gene.agent, gene.instances)

/-- What holds of the local variables of `evaluate` after some genes. -/
structure Evaluation.Progress (project : Project Comp Miss K) (base : Heap Comp K)
    (genes : List AgentGene) (acc : Evaluation Comp K) (heap : Heap Comp K) : Prop where
  sound : base.Sound project heap
  keyed : ∀ comp ∈ project.components, (acc.comps comp).isSome
  Qinv_eq : acc.Qinv =
    developmentCost project (flooredMaxComplexity project) (base.describe genes)
  lists : heap.Lists acc.opAgentList (instances (base.describe genes))

end Correctness

namespace MrsTotalCostFitnessFunction

section Counting

variable {Comp Miss K : Type} [DecidableEq Comp] {project : Project Comp Miss K}

theorem keyed_new : ∀ comp ∈ project.components, ((new project).compsMap comp).isSome := by
  intro comp compMem
  rcases foldl_update_of_mem id (fun _ : Comp => some (0 : ℤ)) compMem with ⟨-, -, -, filled⟩
  exact Option.isSome_iff_exists.mpr ⟨0, filled⟩

theorem triple_countComponents {comps : Comp → Option ℤ} {components : List Comp}
    (known : ∀ comp ∈ components, comp ∈ project.components)
    (keyed : ∀ comp ∈ project.components, (comps comp).isSome) (pre : Heap Comp K → Prop) :
    Triple pre (components.foldlM countComponent comps) fun counted heap =>
      (∀ comp ∈ project.components, (counted comp).isSome) ∧ pre heap := by
  induction components generalizing comps with
  | nil => exact Triple.pure fun heap holds => ⟨keyed, holds⟩
  | cons comp rest ih =>
      rcases Option.isSome_iff_exists.mp (keyed comp (known comp List.mem_cons_self)) with
        ⟨count, found⟩
      have step : (countComponent comps comp : HeapM Comp K _) =
          Pure.pure (Function.update comps comp (some (count + 1))) := by
        simp only [countComponent, found]
      rw [List.foldlM_cons, step, pure_bind]
      apply ih fun other otherMem => known other (List.mem_cons_of_mem comp otherMem)
      intro other otherMem
      by_cases same : other = comp
      · simp [same]
      · simpa [Function.update_of_ne same] using keyed other otherMem

end Counting

section Genes

variable {Comp Miss K : Type} [DecidableEq Comp] [Field K] [LinearOrder K] [MathPow K]
  {project : Project Comp Miss K} {base : Heap Comp K}

theorem triple_evaluateGene {genes : List AgentGene} {acc : Evaluation Comp K}
    {gene : AgentGene} (below : gene.agent < base.next)
    (known : ∀ comp ∈ base.components gene.agent, comp ∈ project.components) :
    Triple (acc.Progress project base genes) (evaluateGene project acc gene)
      fun next => next.Progress project base (genes ++ [gene]) := by
  have described : base.describe (genes ++ [gene]) =
      base.describe genes ++ [(base.components gene.agent, gene.instances)] := by
    simp [Heap.describe]
  rintro heap ⟨sound, keyed, QinvEq, lists⟩
  suffices general : Triple
      (fun heap => base.Sound project heap ∧
        heap.Lists acc.opAgentList (instances (base.describe genes)))
      (evaluateGene project acc gene)
      fun next => next.Progress project base (genes ++ [gene]) from general heap ⟨sound, lists⟩
  clear sound lists heap
  rw [evaluateGene]
  by_cases active : 0 < gene.instances
  · rw [if_pos active]
    refine Triple.bind _ (computes_property_of_sound .designCosts below) fun design =>
      Triple.assuming ?_
    rintro rfl
    refine Triple.bind _ (computes_property_of_sound .productionCosts below) fun production =>
      Triple.assuming ?_
    rintro rfl
    refine Triple.bind (fun read heap =>
      read.components gene.agent = base.components gene.agent ∧ base.Sound project heap ∧
        heap.Lists acc.opAgentList (instances (base.describe genes)))
      (Triple.getStore fun heap holds => ⟨holds.1.ext.components_eq below, holds⟩)
      fun read => Triple.assuming ?_
    intro readComponents
    rw [readComponents]
    refine Triple.bind _ (triple_countComponents known keyed _) fun comps =>
      Triple.assuming ?_
    intro countedKeyed
    refine Triple.bind _ (triple_clones below gene.instances.toNat) fun opAgentList => ?_
    refine Triple.pure fun heap holds => ⟨holds.1, countedKeyed, ?_, ?_⟩
    · rw [described, developmentCost_append, if_pos active, ← QinvEq,
        calculateValue_productionCosts]
      simp only [calculateValue]
      ring
    · rw [described, instances_append, if_pos active]
      exact holds.2
  · rw [if_neg active]
    refine Triple.pure fun heap holds => ⟨holds.1, keyed, ?_, ?_⟩
    · rw [described, developmentCost_append, if_neg active, add_zero, QinvEq]
    · rw [described, instances_append, if_neg active, List.append_nil]
      exact holds.2

end Genes

end MrsTotalCostFitnessFunction

section Configuration

variable {Comp Miss K : Type} [DecidableEq Comp] [Field K] [LinearOrder K] [MathPow K]
  {project : Project Comp Miss K}

namespace Project

theorem configure_run {heap final : Heap Comp K}
    {fitness : MrsTotalCostFitnessFunction Comp Miss K}
    (runs : project.configure.run heap = some (fitness, final)) :
    ∃ count, project.generateAgents.run heap = some (count, final) := by
  rw [configure, StateT.run_bind] at runs
  cases generated : project.generateAgents.run heap with
  | none => simp [generated] at runs
  | some outcome =>
      rcases outcome with ⟨count, reached⟩
      rw [generated] at runs
      have equal : (MrsTotalCostFitnessFunction.new project, reached) = (fitness, final) :=
        Option.some.inj runs
      rw [(Prod.mk.inj equal).2]
      exact ⟨count, rfl⟩

theorem Configured.populated {heap : Heap Comp K} (configured : project.Configured heap) :
    heap.Populated project := by
  induction configured with
  | created => exact ⟨Heap.coherent_empty, by simp [Heap.empty], by simp [Heap.empty]⟩
  | @configure heap final fitness earlier runs ih =>
      rcases configure_run runs with ⟨count, generated⟩
      rcases generateAgents_populated project heap ih with ⟨result, other, runs, populated⟩
      have equal : (count, final) = (result, other) := Option.some.inj (generated.symm.trans runs)
      rw [(Prod.mk.inj equal).2]
      exact populated

theorem exists_configured (project : Project Comp Miss K) :
    ∃ heap, project.Configured heap ∧
      ∀ components ∈ project.candidates, ∃ agent ∈ heap.agents,
        heap.components agent = components := by
  have noAgents : (Heap.empty : Heap Comp K).agents = [] := rfl
  rcases generateAgents_run project noAgents with ⟨heap, runs, familyEq⟩
  have configured : project.configure.run Heap.empty =
      some (MrsTotalCostFitnessFunction.new project, heap) := by
    rw [configure, StateT.run_bind, runs]
    rfl
  refine ⟨heap, Configured.configure Configured.created configured, ?_⟩
  intro components member
  simpa [← familyEq] using member

end Project

omit [DecidableEq Comp] in
theorem Heap.Populated.allocated_pair {heap : Heap Comp K} (populated : heap.Populated project)
    {first second : AgentRef} (firstMem : first ∈ heap.agents) (secondMem : second ∈ heap.agents) :
    ∀ agent ∈ [first, second], agent < heap.next := by
  intro agent agentMem
  rcases List.mem_pair.mp agentMem with rfl | rfl
  · exact populated.allocated agent firstMem
  · exact populated.allocated agent secondMem

end Configuration

section Results

variable {A Comp Miss K : Type} [DecidableEq A] [DecidableEq Comp] [DecidableEq Miss]
  [Field K] [LinearOrder K] [FloorRing K] [MathPow K] {project : Project Comp Miss K}
  {base : Heap Comp K}

/-- The calculator sees of an agent only its components. -/
theorem calcOpCosts_componentsApi (scale : ℕ) (components : A → List Comp) (mrs : List A)
    (Qinv : K) :
    (AverageOpCostCalculator.calcOpCosts project scale (componentsApi project components) mrs
        Qinv).run =
      (AverageOpCostCalculator.calcOpCosts project scale (componentsApi project id)
        (mrs.map components) Qinv).run := by
  have total : ∀ mis,
      AverageOpCostCalculator.totalPerformance (componentsApi project components) mrs mis =
        AverageOpCostCalculator.totalPerformance (componentsApi project id)
          (mrs.map components) mis := by
    intro mis
    simp only [AverageOpCostCalculator.totalPerformance, List.map_map]
    rfl
  have load : ∀ agent,
      AverageOpCostCalculator.agentLoad (componentsApi project components) mrs project scale
          agent =
        AverageOpCostCalculator.agentLoad (componentsApi project id) (mrs.map components) project
          scale (components agent) := by
    intro agent
    simp only [AverageOpCostCalculator.agentLoad, AverageOpCostCalculator.agentTime, total]
    rfl
  rw [AverageOpCostCalculator.calcOpCosts_closed, AverageOpCostCalculator.calcOpCosts_closed]
  simp only [total, load, List.map_map, List.length_map, List.foldl_map]
  rfl

theorem operatingCost_eq (genes : List (List Comp × ℤ)) (Qinv : K) :
    operatingCost project genes Qinv =
      (AverageOpCostCalculator.calcOpCosts project 0 (componentsApi project id)
        (instances genes) Qinv).run := by
  have indexed : (List.range (instances genes).length).map
      (fun index => (instances genes)[index]?.getD []) = instances genes := by
    apply List.ext_getElem
    · simp
    · intro index _ below
      simp [List.getElem?_eq_getElem below]
  rw [operatingCost, calcOpCosts_componentsApi, indexed]

namespace MrsTotalCostFitnessFunction

/-- An evaluation returns the cost of the chromosome alone and keeps the heap sound. -/
theorem triple_evaluate {genes : List AgentGene}
    (below : ∀ gene ∈ genes, gene.agent < base.next)
    (known : ∀ gene ∈ genes, ∀ comp ∈ base.components gene.agent, comp ∈ project.components) :
    Computes (base.Sound project) ((new project).evaluate genes)
      (cacheFreeCost project (flooredMaxComplexity project) (base.describe genes)) := by
  rw [evaluate]
  refine Triple.bind _ (Triple.consequence
    (Triple.foldlM (fun processed (acc : Evaluation Comp K) heap =>
      acc.Progress project base processed heap) ?_)
    (fun heap sound => ?_) fun _ _ progress => progress) fun acc heap progress => ?_
  · intro processed gene rest acc split
    have member : gene ∈ genes := by simp [split]
    exact triple_evaluateGene (below gene member) (known gene member)
  · exact ⟨sound, keyed_new, by simp [developmentCost, Heap.describe, activeGenes],
      by simp, by simp [instances, Heap.describe, activeGenes]⟩
  · rcases progress with ⟨sound, -, QinvEq, lists⟩
    have invested : acc.Qinv + project.costModel.calcSysDesign acc.opAgentList.length =
        investment project (flooredMaxComplexity project) (base.describe genes) := by
      have lengthEq := congrArg List.length lists.components_eq
      rw [List.length_map] at lengthEq
      rw [QinvEq, lengthEq, investment]
    have operating : Computes (Heap.Good project (· < heap.next) heap)
        (AverageOpCostCalculator.calcOpCosts project 0 (heapApi project) acc.opAgentList
          (acc.Qinv + project.costModel.calcSysDesign acc.opAgentList.length))
        (AverageOpCostCalculator.calcOpCosts project 0
          (componentsApi project heap.components) acc.opAgentList
          (acc.Qinv + project.costModel.calcSysDesign acc.opAgentList.length)).run := by
      apply AverageOpCostCalculator.computes_calcOpCosts
      · intro mis _ agent agentMem
        exact computes_performance mis (lists.allocated agent agentMem)
          (lists.allocated agent agentMem)
      · intro agent agentMem
        exact computes_getProperty .operatingEnergy (lists.allocated agent agentMem)
          (lists.allocated agent agentMem)
    rcases operating heap ⟨sound.coherent, Heap.Extends.refl heap, rfl⟩ with
      ⟨Qoper, final, runs, equal, good⟩
    rw [calcOpCosts_componentsApi, lists.components_eq, ← operatingCost_eq, invested] at equal
    refine ⟨acc.Qinv + project.costModel.calcSysDesign acc.opAgentList.length + Qoper, final, ?_,
      ?_, fun agent agentBelow => ?_, sound.ext.trans good.ext⟩
    · rw [StateT.run_bind]
      simp only [new] at runs ⊢
      rw [runs]
      rfl
    · rw [invested, equal, cacheFreeCost]
    · exact good.coherent agent (good.next_eq ▸ agentBelow)

end MrsTotalCostFitnessFunction

theorem Project.Configured.computes_evaluate {heap : Heap Comp K}
    (configured : project.Configured heap) (genes : List AgentGene)
    (overAgents : ∀ gene ∈ genes, gene.agent ∈ heap.agents) :
    Computes (heap.Sound project) ((MrsTotalCostFitnessFunction.new project).evaluate genes)
      (cacheFreeCost project (flooredMaxComplexity project) (heap.describe genes)) := by
  have populated := configured.populated
  apply MrsTotalCostFitnessFunction.triple_evaluate
  · intro gene geneMem
    exact populated.allocated gene.agent (overAgents gene geneMem)
  · intro gene geneMem
    exact (populated.components_sublist gene.agent (overAgents gene geneMem)).subset

/-- Whatever has been evaluated before, the value of a chromosome is its cost without caches. -/
theorem evaluations_cacheFree (project : Project Comp Miss K) {heap : Heap Comp K}
    (configured : project.Configured heap) (chromosomes : List (List AgentGene))
    (overAgents : ∀ genes ∈ chromosomes, ∀ gene ∈ genes, gene.agent ∈ heap.agents) :
    ∃ final, (chromosomes.mapM (MrsTotalCostFitnessFunction.new project).evaluate).run heap =
      some (chromosomes.map fun genes =>
        cacheFreeCost project (flooredMaxComplexity project) (heap.describe genes), final) := by
  have all := Computes.mapM fun genes genesMem =>
    configured.computes_evaluate genes (overAgents genes genesMem)
  have sound : heap.Sound project heap := ⟨configured.populated.coherent, Heap.Extends.refl heap⟩
  rcases all heap sound with ⟨_, final, runs, rfl, -⟩
  exact ⟨final, runs⟩

theorem exists_grassAgents (side complexity : ℚ)
    (mows : [.mobileBase, .mowingMachine] ∈ (grassTrimmingProject side complexity).candidates)
    (watches : [.camera] ∈ (grassTrimmingProject side complexity).candidates) :
    ∃ heap, (grassTrimmingProject side complexity).Configured heap ∧
      ∃ mower ∈ heap.agents, ∃ watcher ∈ heap.agents, ∀ mowers watchers,
        heap.describe [⟨mower, mowers⟩, ⟨watcher, watchers⟩] =
          [([.mobileBase, .mowingMachine], mowers), ([.camera], watchers)] := by
  rcases (grassTrimmingProject side complexity).exists_configured with
    ⟨heap, configured, family⟩
  rcases family _ mows with ⟨mower, mowerMem, mowerEq⟩
  rcases family _ watches with ⟨watcher, watcherMem, watcherEq⟩
  refine ⟨heap, configured, mower, mowerMem, watcher, watcherMem, fun mowers watchers => ?_⟩
  simp [Heap.describe, mowerEq, watcherEq]

theorem components_of_describe {heap : Heap GrassComponent ℚ} {mower watcher : AgentRef}
    (described : ∀ mowers watchers, heap.describe [⟨mower, mowers⟩, ⟨watcher, watchers⟩] =
      [([.mobileBase, .mowingMachine], mowers), ([.camera], watchers)]) :
    heap.components mower = [.mobileBase, .mowingMachine] ∧
      heap.components watcher = [.camera] := by
  simpa [Heap.describe] using described 0 0

/-- The mower and the camera robot of the grass trimming project, evaluated twice. -/
theorem evaluations_cacheFree_grass :
    ∃ heap, (grassTrimmingProject 100 1).Configured heap ∧
      ∃ mower ∈ heap.agents, ∃ watcher ∈ heap.agents, ∃ final,
        ([[⟨mower, 2⟩, ⟨watcher, 1⟩], [⟨mower, 2⟩, ⟨watcher, 1⟩]].mapM
          (MrsTotalCostFitnessFunction.new (grassTrimmingProject 100 1)).evaluate).run heap =
            some ([4465875201040135213864510339 / 125000000000000000000000,
              4465875201040135213864510339 / 125000000000000000000000], final) := by
  rcases exists_grassAgents 100 1 (by decide +kernel)
    (by decide +kernel) with ⟨heap, configured, mower, mowerMem, watcher, watcherMem, described⟩
  refine ⟨heap, configured, mower, mowerMem, watcher, watcherMem, ?_⟩
  have runs := evaluations_cacheFree (grassTrimmingProject 100 1) configured
    [[⟨mower, 2⟩, ⟨watcher, 1⟩], [⟨mower, 2⟩, ⟨watcher, 1⟩]]
    (by simp [mowerMem, watcherMem])
  have cost : cacheFreeCost (grassTrimmingProject 100 1)
      (flooredMaxComplexity (grassTrimmingProject 100 1))
      [([.mobileBase, .mowingMachine], 2), ([.camera], 1)] =
        4465875201040135213864510339 / 125000000000000000000000 := by
    decide +kernel
  simpa only [List.map_cons, List.map_nil, described, cost] using runs

/-- A camera of complexity `-1` is assembled as if its complexity were zero, not at the
greatest complexity of its components. -/
theorem evaluate_negative_complexity :
    ∃ heap, (grassTrimmingProject 100 (-1)).Configured heap ∧ ∃ watcher ∈ heap.agents,
      ∃ value final,
        ((MrsTotalCostFitnessFunction.new (grassTrimmingProject 100 (-1))).evaluate
          [⟨watcher, 1⟩]).run heap = some (value, final) ∧
        ∀ maxComplexity : List GrassComponent → ℚ,
          (∀ components ≠ [], IsGreatest
            {complexity | ∃ comp ∈ components,
              ((grassTrimmingProject 100 (-1)).component comp).complexity = complexity}
            (maxComplexity components)) →
          value ≠ cacheFreeCost (grassTrimmingProject 100 (-1)) maxComplexity
            (heap.describe [⟨watcher, 1⟩]) := by
  rcases (grassTrimmingProject 100 (-1)).exists_configured with ⟨heap, configured, family⟩
  rcases family [.camera] (by decide +kernel) with ⟨watcher, watcherMem, watches⟩
  have sound : heap.Sound (grassTrimmingProject 100 (-1)) heap :=
    ⟨configured.populated.coherent, Heap.Extends.refl heap⟩
  have evaluates := configured.computes_evaluate [⟨watcher, 1⟩] (by simpa using watcherMem)
  rcases evaluates heap sound with ⟨value, final, runs, equal, -⟩
  refine ⟨heap, configured, watcher, watcherMem, value, final, runs, ?_⟩
  intro maxComplexity greatest same
  have described : heap.describe [⟨watcher, 1⟩] = [([.camera], 1)] := by
    simp [Heap.describe, watches]
  have greatestCamera : maxComplexity [.camera] = -1 := by
    rcases (greatest [.camera] (by simp)).1 with ⟨comp, compMem, complexityEq⟩
    rw [List.mem_singleton.mp compMem] at complexityEq
    exact complexityEq.symm
  have instanceEq : instanceCost (grassTrimmingProject 100 (-1)) maxComplexity [.camera] =
      instanceCost (grassTrimmingProject 100 (-1)) (fun _ => -1) [.camera] := by
    rw [instanceCost, instanceCost, greatestCamera]
  have investmentEq : investment (grassTrimmingProject 100 (-1)) maxComplexity [([.camera], 1)] =
      investment (grassTrimmingProject 100 (-1)) (fun _ => -1) [([.camera], 1)] := by
    simp [investment, developmentCost, activeGenes, instanceEq]
  rw [equal, described, cacheFreeCost, cacheFreeCost, investmentEq] at same
  revert same
  decide +kernel

end Results

end MrsOptimization
