import MrsOptimization.Heuristic.ComponentOrder

/-!
# The sets of components that generation examines

Every pass of the loop in `generateAgents` makes an agent and examines it, whether or not the
agent is then kept. So the agents between the heap before the loop and the heap after it show
what the loop has examined.

The loop reads its bound from `1 << compNum`. `Project.examinesAll_iff` says that up to 30
components it examines every non-empty set of them, and that from 31 components on it finishes
without an error after fewer sets.
-/

namespace MrsOptimization

variable {Comp Miss K : Type}

/-- The components of the agents that were made since an earlier heap. -/
def Heap.made (earlier final : Heap Comp K) : List (List Comp) :=
  (List.range' earlier.next (final.next - earlier.next)).map final.components

section Generation

variable [DecidableEq Comp] [Field K] [LinearOrder K] [MathPow K]

/-- Generation examines every choice of some of the components once, or ends in an error. -/
def Project.ExaminesAll (project : Project Comp Miss K) (heap : Heap Comp K) : Prop :=
  project.generateAgents.run heap = none ∨
    ∃ result final, project.generateAgents.run heap = some (result, final) ∧
      (heap.made final).Perm (subsequences project.components)

/-- Since the earlier heap, just the agents of the processed masks were made. -/
structure Heap.MadeFor (project : Project Comp Miss K) (earlier : Heap Comp K)
    (processed : List ℕ) (final : Heap Comp K) : Prop where
  next_eq : final.next = earlier.next + processed.length
  made_eq : earlier.made final = processed.map (select project.components)

/-- A pass of the loop makes the agent of its mask and leaves the earlier ones as they are. -/
theorem triple_generateAgent_madeFor (project : Project Comp Miss K) (heap : Heap Comp K)
    (processed : List ℕ) {mask : ℕ} (below : mask < 2 ^ project.components.length) :
    Triple (heap.MadeFor project processed) (project.generateAgent mask)
      fun _ => heap.MadeFor project (processed ++ [mask]) := by
  rintro current ⟨nextEq, madeEq⟩
  rcases triple_generateAgent current below current rfl with
    ⟨result, _, runs, built, ext, builtNext, -, rfl⟩
  refine ⟨result, _, runs, ?_, ?_⟩
  · simp [builtNext, nextEq, add_assoc]
  · have latest : built.components current.next = select project.components mask := by
      rw [ext.components_eq (Nat.lt_succ_self current.next), Heap.components,
        Heap.add_object_self]
    have older : (List.range' heap.next processed.length).map built.components =
        (List.range' heap.next processed.length).map current.components := by
      apply List.map_congr_left
      intro agent agentMem
      have agentBelow : agent < current.next := by
        rw [nextEq]
        exact (List.mem_range'_1.mp agentMem).2
      exact ((current.extends_add _).trans ext).components_eq agentBelow
    have count : built.next - heap.next = processed.length + 1 := by
      rw [builtNext, nextEq, add_assoc, Nat.add_sub_cancel_left]
    have countBefore : current.next - heap.next = processed.length := by
      rw [nextEq, Nat.add_sub_cancel_left]
    rw [Heap.made, countBefore] at madeEq
    change (List.range' heap.next (built.next - heap.next)).map built.components = _
    rw [count, List.range'_1_concat, List.map_append, List.map_append, older, madeEq, ← nextEq]
    simp [latest]

/-- The loop never fails, and makes the agents of its masks. -/
theorem generateAgents_made (project : Project Comp Miss K) (heap : Heap Comp K) :
    ∃ final, project.generateAgents.run heap = some (0, final) ∧
      heap.made final =
        (masks project.components.length).map (select project.components) := by
  have loop : Triple (heap.MadeFor project []) project.generateAgents fun result final =>
      result = 0 ∧ heap.MadeFor project (masks project.components.length) final := by
    refine Triple.bind _ (Triple.forM _ _ (heap.MadeFor project) ?_) fun _ =>
      Triple.pure fun final holds => ⟨rfl, holds⟩
    intro processed mask remaining split
    apply triple_generateAgent_madeFor
    exact (mem_masks (split ▸ (by simp) : mask ∈ masks project.components.length)).2
  rcases loop heap ⟨rfl, by simp [Heap.made]⟩ with ⟨result, final, runs, rfl, holds⟩
  exact ⟨final, runs, holds.made_eq⟩

/-- It is enough to count the sets that the loop examines. -/
theorem Project.examinesAll_iff_perm (project : Project Comp Miss K) (heap : Heap Comp K) :
    project.ExaminesAll heap ↔
      ((masks project.components.length).map (select project.components)).Perm
        (subsequences project.components) := by
  rcases generateAgents_made project heap with ⟨final, runs, madeEq⟩
  simp [ExaminesAll, runs, madeEq]

/-- With more than 30 components the loop makes fewer agents than there are sets. -/
theorem length_masks_lt {compNum : ℕ} (overflow : 30 < compNum) :
    (masks compNum).length < 2 ^ compNum - 1 := by
  have narrow : 2 ^ maskWidth compNum < 2 ^ compNum :=
    Nat.pow_lt_pow_right Nat.one_lt_two (maskWidth_lt overflow)
  have positive : 0 < 2 ^ maskWidth compNum := Nat.two_pow_pos _
  rw [masks_eq_range', List.length_range']
  omega

theorem Project.not_examinesAll {project : Project Comp Miss K}
    (overflow : 30 < project.components.length) (heap : Heap Comp K) :
    ¬project.ExaminesAll heap := by
  rw [examinesAll_iff_perm]
  intro perm
  have lengths := perm.length_eq
  rw [List.length_map, length_subsequences] at lengths
  exact (length_masks_lt overflow).ne lengths

/-- Generation examines all sets of components if and only if there are no more than 30 of
them. -/
theorem Project.examinesAll_iff (project : Project Comp Miss K) (heap : Heap Comp K) :
    project.ExaminesAll heap ↔ project.components.length ≤ 30 := by
  constructor
  · intro examines
    by_contra overflow
    exact not_examinesAll (not_le.mp overflow) heap examines
  · intro noOverflow
    rw [examinesAll_iff_perm, masks_eq noOverflow]
    exact map_select_perm project.components

end Generation

/-- A project without missions that has the given number of components. -/
def plainProject (compNum : ℕ) : Project ℕ Empty ℚ where
  components := List.range compNum
  missions := []
  component := fun _ => ⟨"plain", 1, 1, 1, []⟩
  mission := Empty.elim
  config := Config.initial
  costModel := CostModel.initial

/-- With 31 components the bound of the loop is negative: no agent is made, and no error is
reported. -/
theorem not_examinesAll_thirtyOne :
    (∃ final, (plainProject 31).generateAgents.run Heap.empty = some (0, final) ∧
      Heap.empty.made final = []) ∧ ¬(plainProject 31).ExaminesAll Heap.empty := by
  have many : (plainProject 31).components.length = 31 := List.length_range
  constructor
  · rcases generateAgents_made (plainProject 31) Heap.empty with ⟨final, runs, madeEq⟩
    refine ⟨final, runs, madeEq.trans ?_⟩
    rw [many, masks_eq_range']
    rfl
  · apply Project.not_examinesAll
    omega

end MrsOptimization
