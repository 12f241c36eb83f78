import MrsOptimization.Heuristic.TotalCost

/-!
# Configuring a project again

`Project.configure` makes a new configuration of the genetic algorithm each time, but the agents
it generates join those the project already has. After `again` further calls every agent is there
once for each call (`configureAgain_run`), and the sample chromosome has a gene for each of them.
-/

namespace MrsOptimization

section Code

variable {Comp Miss K : Type} [DecidableEq Comp] [Field K] [LinearOrder K] [MathPow K]

namespace Project

/-- `configure`, with the genes of the sample chromosome: one for every agent, without instances. -/
def configureSample (project : Project Comp Miss K) : HeapM Comp K (List AgentGene) := do
  let _ ← project.configure
  let heap ← get
  return heap.agents.map fun agent => ⟨agent, 0⟩

/-- A call of `configure`, and the given number of further ones. -/
def configureAgain (project : Project Comp Miss K) : ℕ → HeapM Comp K (List AgentGene)
  | 0 => project.configureSample
  | again + 1 => do
      let _ ← project.configureAgain again
      project.configureSample

end Project

namespace Heap

/-- The component sets of the agents of the project. -/
def componentSets (heap : Heap Comp K) : List (Finset Comp) :=
  heap.agents.map fun agent => (heap.components agent).toFinset

/-- The component sets and the instance numbers of genes. -/
def geneSets (heap : Heap Comp K) (genes : List AgentGene) : List (Finset Comp × ℤ) :=
  genes.map fun gene => ((heap.components gene.agent).toFinset, gene.instances)

end Heap

/-- The further calls leave the agents and the genes that the first one leaves, and no two agents
have the same components. -/
def Project.ConfiguresSame (project : Project Comp Miss K) (heap : Heap Comp K) (again : ℕ) :
    Prop :=
  ∃ genes first laterGenes later,
    (project.configureAgain 0).run heap = some (genes, first) ∧
    (project.configureAgain again).run heap = some (laterGenes, later) ∧
    later.componentSets = first.componentSets ∧
    later.geneSets laterGenes = first.geneSets genes ∧
    later.componentSets.Nodup

end Code

section Results

theorem flatten_replicate_eq_iff {α : Type} {items : List α} {again : ℕ} :
    (List.replicate (again + 1) items).flatten = items ↔ again = 0 ∨ items = [] := by
  constructor
  · intro equal
    have lengths := congrArg List.length equal
    rw [List.length_flatten, List.map_replicate, List.sum_replicate, smul_eq_mul, Nat.succ_mul,
      Nat.add_eq_right, Nat.mul_eq_zero, List.length_eq_zero_iff] at lengths
    exact lengths
  · rintro (rfl | rfl)
    · simp
    · simp

variable {Comp Miss K : Type} [DecidableEq Comp] [Field K] [LinearOrder K]
  [MathPow K] {project : Project Comp Miss K} {heap : Heap Comp K}

/-- The component sets of the agents that one run of `generateAgents` accepts. -/
def Project.candidateSets (project : Project Comp Miss K) : List (Finset Comp) :=
  project.candidates.map List.toFinset

theorem Project.candidateSets_nodup (nodup : project.components.Nodup) :
    project.candidateSets.Nodup := by
  have distinct : ((masks project.components.length).map fun mask =>
      (select project.components mask).toFinset).Nodup := by
    refine List.Nodup.map_on ?_ List.nodup_range'
    intro left leftMem right rightMem equal
    rw [← maskOf_select nodup (mem_masks leftMem).2, ← maskOf_select nodup (mem_masks rightMem).2]
    apply maskOf_congr
    intro comp _
    rw [← List.mem_toFinset, equal, List.mem_toFinset]
  refine distinct.sublist ?_
  rw [candidateSets, candidates]
  have selected := (List.filter_sublist (p := project.acceptsComponents)
    (l := (masks project.components.length).map (select project.components))).map List.toFinset
  rwa [List.map_map] at selected

namespace Heap

omit [DecidableEq Comp] [Field K] [LinearOrder K] [MathPow K] in
theorem Generates.allocated {families : List (List Comp)} {final : Heap Comp K}
    (generates : heap.Generates families final)
    (allocated : ∀ agent ∈ heap.agents, agent < heap.next) :
    ∀ agent ∈ final.agents, agent < final.next := by
  rcases generates.agents_eq with ⟨new, agentsEq, bounds, -⟩
  intro agent agentMem
  rcases List.mem_append.mp (agentsEq ▸ agentMem) with old | added
  · exact (allocated agent old).trans_le generates.next_le
  · exact (bounds agent added).2

omit [Field K] [LinearOrder K] [MathPow K] in
theorem Generates.componentSets {families : List (List Comp)} {final : Heap Comp K}
    (generates : heap.Generates families final)
    (allocated : ∀ agent ∈ heap.agents, agent < heap.next) :
    final.componentSets = heap.componentSets ++ families.map List.toFinset := by
  rcases generates.agents_eq with ⟨new, agentsEq, -, familyEq⟩
  rw [Heap.componentSets, agentsEq, List.map_append, ← familyEq, List.map_map]
  congr 1
  apply List.map_congr_left
  intro agent agentMem
  rw [generates.components_eq agent (allocated agent agentMem)]

omit [Field K] [LinearOrder K] [MathPow K] in
theorem geneSets_sample (heap : Heap Comp K) :
    heap.geneSets (heap.agents.map fun agent => ⟨agent, 0⟩) =
      heap.componentSets.map fun components => (components, 0) := by
  rw [geneSets, componentSets, List.map_map, List.map_map]
  rfl

end Heap

/-- What one call of `configure` does. -/
theorem configureSample_run (project : Project Comp Miss K) (heap : Heap Comp K) :
    ∃ final, project.configureSample.run heap =
        some (final.agents.map fun agent => ⟨agent, 0⟩, final) ∧
      heap.Generates project.candidates final := by
  rcases triple_generateAgents project heap heap rfl with ⟨result, final, runs, -, generates, -⟩
  refine ⟨final, ?_, generates⟩
  rw [Project.configureSample, StateT.run_bind, Project.configure, StateT.run_bind, runs]
  rfl

/-- What several calls of `configure` do: each leaves every generated agent once more. -/
theorem configureAgain_run (project : Project Comp Miss K)
    (allocated : ∀ agent ∈ heap.agents, agent < heap.next) (again : ℕ) :
    ∃ final, (project.configureAgain again).run heap =
        some (final.agents.map fun agent => ⟨agent, 0⟩, final) ∧
      (∀ agent ∈ final.agents, agent < final.next) ∧
      final.componentSets = heap.componentSets ++
        (List.replicate (again + 1) project.candidateSets).flatten := by
  induction again with
  | zero =>
      rcases configureSample_run project heap with ⟨final, runs, generates⟩
      refine ⟨final, runs, generates.allocated allocated, ?_⟩
      rw [generates.componentSets allocated]
      simp [Project.candidateSets]
  | succ again ih =>
      rcases ih with ⟨middle, middleRuns, middleAllocated, middleSets⟩
      rcases configureSample_run project middle with ⟨final, runs, generates⟩
      refine ⟨final, ?_, generates.allocated middleAllocated, ?_⟩
      · rw [Project.configureAgain, StateT.run_bind, middleRuns, Option.bind_eq_bind,
          Option.bind_some]
        exact runs
      · have grown : List.replicate (again + 1 + 1) project.candidateSets =
            List.replicate (again + 1) project.candidateSets ++ [project.candidateSets] :=
          List.replicate_succ'
        rw [generates.componentSets middleAllocated, middleSets, grown, List.flatten_append,
          List.flatten_singleton, List.append_assoc, Project.candidateSets]

theorem configuresSame_iff_candidateSets
    (allocated : ∀ agent ∈ heap.agents, agent < heap.next) {again : ℕ} :
    project.ConfiguresSame heap again ↔
      (again = 0 ∨ project.candidateSets = []) ∧
        (heap.componentSets ++ project.candidateSets).Nodup := by
  rcases configureAgain_run project allocated 0 with ⟨first, firstRuns, -, firstSets⟩
  rcases configureAgain_run project allocated again with ⟨later, laterRuns, -, laterSets⟩
  rw [List.replicate_one, List.flatten_singleton] at firstSets
  have same : later.componentSets = first.componentSets ↔
      again = 0 ∨ project.candidateSets = [] := by
    rw [laterSets, firstSets, List.append_cancel_left_eq, flatten_replicate_eq_iff]
  constructor
  · rintro ⟨_, _, _, _, firstRan, laterRan, equal, -, distinct⟩
    rcases Prod.mk.inj (Option.some.inj (firstRuns.symm.trans firstRan)) with ⟨rfl, rfl⟩
    rcases Prod.mk.inj (Option.some.inj (laterRuns.symm.trans laterRan)) with ⟨rfl, rfl⟩
    exact ⟨same.mp equal, firstSets ▸ equal ▸ distinct⟩
  · rintro ⟨without, distinct⟩
    have equal := same.mpr without
    refine ⟨_, first, _, later, firstRuns, laterRuns, equal, ?_, ?_⟩
    · rw [Heap.geneSets_sample, Heap.geneSets_sample, equal]
    · rw [equal, firstSets]
      exact distinct

theorem Project.mem_candidateSets {components : Finset Comp} :
    components ∈ project.candidateSets ↔ ∃ mask ∈ masks project.components.length,
      project.IsCandidate (select project.components mask) ∧
        (select project.components mask).toFinset = components := by
  simp only [candidateSets, candidates, List.mem_map, List.mem_filter, acceptsComponents_iff]
  constructor
  · rintro ⟨_, ⟨⟨mask, maskMem, rfl⟩, candidate⟩, equal⟩
    exact ⟨mask, maskMem, candidate, equal⟩
  · rintro ⟨mask, maskMem, candidate, equal⟩
    exact ⟨_, ⟨⟨mask, maskMem, rfl⟩, candidate⟩, equal⟩

/-- Configuring again changes nothing if and only if there is no valid set of components to add,
and the project had no agents twice, nor any that the first call adds. -/
theorem configuresSame_iff (project : Project Comp Miss K) (nodup : project.components.Nodup)
    (allocated : ∀ agent ∈ heap.agents, agent < heap.next) (again : ℕ) :
    project.ConfiguresSame heap again ↔
      (again = 0 ∨ ∀ mask ∈ masks project.components.length,
        ¬project.IsCandidate (select project.components mask)) ∧
      heap.componentSets.Nodup ∧
      ∀ mask ∈ masks project.components.length,
        project.IsCandidate (select project.components mask) →
          (select project.components mask).toFinset ∉ heap.componentSets := by
  have none : project.candidateSets = [] ↔ ∀ mask ∈ masks project.components.length,
      ¬project.IsCandidate (select project.components mask) := by
    simp only [List.eq_nil_iff_forall_not_mem, Project.mem_candidateSets]
    constructor
    · intro absent mask maskMem candidate
      exact absent _ ⟨mask, maskMem, candidate, rfl⟩
    · rintro absent _ ⟨mask, maskMem, candidate, -⟩
      exact absent mask maskMem candidate
  rw [configuresSame_iff_candidateSets allocated, none, List.nodup_append]
  refine and_congr_right fun _ => and_congr_right fun _ => ?_
  constructor
  · rintro ⟨-, apart⟩ mask maskMem candidate stored
    exact apart _ stored _ (Project.mem_candidateSets.mpr ⟨mask, maskMem, candidate, rfl⟩) rfl
  · intro apart
    refine ⟨Project.candidateSets_nodup nodup, ?_⟩
    rintro components stored other member rfl
    rcases Project.mem_candidateSets.mp member with ⟨mask, maskMem, candidate, rfl⟩
    exact apart mask maskMem candidate stored

/-- The first call leaves no two agents with the same components. -/
theorem configuresSame_iff_grass :
    (grassTrimmingProject 100 1).ConfiguresSame Heap.empty 0 := by
  refine (configuresSame_iff _ (by decide) (fun agent agentMem => ?_) 0).mpr
    ⟨Or.inl rfl, List.nodup_nil, fun mask _ _ => List.not_mem_nil⟩
  exact absurd agentMem List.not_mem_nil

/-- The second call leaves the mower, and every other agent, twice. -/
theorem not_configuresSame_grass :
    ¬(grassTrimmingProject 100 1).ConfiguresSame Heap.empty 1 := by
  rw [configuresSame_iff_candidateSets fun agent agentMem => absurd agentMem List.not_mem_nil]
  rintro ⟨zero | noCandidates, -⟩
  · exact absurd zero one_ne_zero
  · have member : ([.mobileBase, .mowingMachine] : List GrassComponent).toFinset ∈
        (grassTrimmingProject 100 1).candidateSets := by
      rw [Project.candidateSets]
      exact List.mem_map_of_mem (by decide +kernel)
    rw [noCandidates] at member
    exact List.not_mem_nil member

end Results

end MrsOptimization
