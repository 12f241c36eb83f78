import MrsOptimization.Heuristic.TotalCost

/-!
# The common time of a mission

`AverageOpCostCalculator` gives the same time to all agents able to perform a
mission. No schedule on the same grid gets the mission done sooner
(`commonTime_optimal`): on average the able agents work at least as long as the
work divided by their total performance, and the common time is the least
multiple of the step that is not below this quotient.

A clone of an agent adds to the total performance of the missions that the agent
can perform. Common times get shorter, the clone is loaded as its original is,
and the system time does not grow (`getSysTime_clone_le`).
-/

namespace MrsOptimization

namespace AverageOpCostCalculator

variable {A Comp Miss K : Type} [Field K] [LinearOrder K] [FloorRing K]
  {api : AgentApi Id A Miss K} {mrs : List A} {project : Project Comp Miss K} {scale : ℕ}

section Optimality

variable [IsStrictOrderedRing K] {mis : Miss}

theorem work_le_commonTime_mul (scale : ℕ) (total : 0 < totalPerformance api mrs mis) :
    (project.mission mis).getAmountOfWork ≤
      commonTime api mrs project scale mis * totalPerformance api mrs mis := by
  rw [← div_le_iff₀ total]
  exact (isLeast_ceilTo scale _).1.1

/-- Agents that do all the work in steps of `10 ^ -scale` include an able one that takes at
least the common time. -/
theorem commonTime_le_of_work_le (performanceNonneg : ∀ agent ∈ mrs, 0 ≤ performance api mis agent)
    (total : 0 < totalPerformance api mrs mis) {times : A → K}
    (steps : ∀ agent ∈ mrs, ∃ count : ℕ, times agent = count / (10 ^ scale : ℕ))
    (covers : (project.mission mis).getAmountOfWork ≤
      (mrs.map fun agent => times agent * performance api mis agent).sum) :
    ∃ agent ∈ mrs, 0 < performance api mis agent ∧
      commonTime api mrs project scale mis ≤ times agent := by
  rcases exists_average_le performanceNonneg total covers with ⟨agent, agentMem, able, average⟩
  rcases steps agent agentMem with ⟨count, timeEq⟩
  refine ⟨agent, agentMem, able, ?_⟩
  apply (isLeast_ceilTo scale _).2
  exact ⟨average, count, by simpa using timeEq⟩

variable [DecidableEq A] [DecidableEq Miss]

/-- The time given for a mission is the same for all agents able to perform it; with it the work
is done, and no schedule on the grid does the work in less time. This holds as soon as the missions
up to this one have been processed: the calculation is over at one that has no performance. -/
theorem commonTime_optimal (api : AgentApi Id A Miss K) (mrs : List A)
    (project : Project Comp Miss K) (scale : ℕ) {processed later : List Miss} {mis : Miss}
    (split : project.missions = processed ++ later) (misMem : mis ∈ processed)
    (reached : ∀ other ∈ processed, totalPerformance api mrs other ≠ 0)
    (workNonneg : 0 ≤ (project.mission mis).getAmountOfWork)
    (performanceNonneg : ∀ agent ∈ mrs, 0 ≤ performance api mis agent)
    (total : 0 < totalPerformance api mrs mis) :
    ∃ filled time,
      (fillTimes project scale api mrs processed
        (AgentMissionMatrix.new mrs project.missions)).run = some filled ∧
      (∀ agent ∈ mrs, 0 < performance api mis agent → filled.getValue agent mis = time) ∧
      (project.mission mis).getAmountOfWork ≤ filled.getWorkDone (performance api) mis ∧
      ∀ times : A → K,
        (∀ agent ∈ mrs, ∃ count : ℕ, times agent = count / (10 ^ scale : ℕ)) →
        (project.mission mis).getAmountOfWork ≤
          (mrs.map fun agent => times agent * performance api mis agent).sum →
        ∃ agent ∈ mrs, 0 < performance api mis agent ∧ time ≤ times agent := by
  have pendingMem : ∀ other ∈ processed, other ∈ project.missions := by
    intro other otherMem
    rw [split]
    exact List.mem_append_left later otherMem
  rcases fillTimes_eq_some api mrs project scale
    (rfl : (AgentMissionMatrix.new mrs project.missions).agents = mrs) pendingMem reached with
    ⟨filled, runs, agentsEq, -, values⟩
  have cell : ∀ agent ∈ mrs, 0 < performance api mis agent →
      filled.getValue agent mis = commonTime api mrs project scale mis := by
    intro agent agentMem able
    rw [values agent agentMem mis, if_pos ⟨misMem, able⟩,
      agentTime_eq workNonneg performanceNonneg, if_pos able]
  refine ⟨filled, commonTime api mrs project scale mis, runs, cell, ?_, ?_⟩
  · apply (work_le_commonTime_mul scale total).trans_eq
    rw [AgentMissionMatrix.getWorkDone, agentsEq, totalPerformance, ← List.sum_map_mul_left]
    congr 1
    apply List.map_congr_left
    intro agent agentMem
    rcases (performanceNonneg agent agentMem).eq_or_lt with zero | able
    · simp [← zero]
    · rw [cell agent agentMem able]
  · intro times steps covers
    exact commonTime_le_of_work_le performanceNonneg total steps covers

/-- The two mowers share the mowing evenly. -/
theorem commonTime_optimal_mowers :
    ∃ filled time,
      (fillTimes (grassTrimmingProject 100 1) 0 mowersApi [0, 1] [.mowing]
        (AgentMissionMatrix.new [0, 1] (grassTrimmingProject 100 1).missions)).run = some filled ∧
      (∀ agent ∈ [0, 1], 0 < performance mowersApi .mowing agent →
        filled.getValue agent .mowing = time) ∧
      ((grassTrimmingProject 100 1).mission .mowing).getAmountOfWork ≤
        filled.getWorkDone (performance mowersApi) .mowing ∧
      ∀ times : ℕ → ℚ,
        (∀ agent ∈ [0, 1], ∃ count : ℕ, times agent = count / (10 ^ 0 : ℕ)) →
        ((grassTrimmingProject 100 1).mission .mowing).getAmountOfWork ≤
          ([0, 1].map fun agent => times agent * performance mowersApi .mowing agent).sum →
        ∃ agent ∈ [0, 1], 0 < performance mowersApi .mowing agent ∧ time ≤ times agent :=
  commonTime_optimal mowersApi [0, 1] (grassTrimmingProject 100 1) 0
    (show _ = [GrassMission.mowing] ++ [.watching] from rfl) (by decide) (by decide +kernel)
    (by decide +kernel) (by decide +kernel) (by decide +kernel)

end Optimality

section MoreAgents

omit [LinearOrder K] [FloorRing K] in
theorem totalPerformance_append {more : AgentApi Id A Miss K} {agent copy : A} {mis : Miss}
    (kept : ∀ other ∈ mrs, performance more mis other = performance api mis other)
    (copied : performance more mis copy = performance api mis agent) :
    totalPerformance more (mrs ++ [copy]) mis =
      totalPerformance api mrs mis + performance api mis agent := by
  rw [totalPerformance, List.map_append, List.sum_append, List.map_congr_left kept]
  simp [totalPerformance, copied]

variable [IsStrictOrderedRing K]

theorem ceilTo_mono {value other : K} (le : value ≤ other) :
    ceilTo scale value ≤ ceilTo scale other :=
  (isLeast_ceilTo scale value).2 ⟨le.trans (isLeast_ceilTo scale other).1.1,
    (isLeast_ceilTo scale other).1.2⟩

/-- The more is performed, the shorter is the common time. -/
theorem commonTime_anti {more : AgentApi Id A Miss K} {grown : List A} {mis : Miss}
    (workNonneg : 0 ≤ (project.mission mis).getAmountOfWork)
    (total : 0 < totalPerformance api mrs mis)
    (le : totalPerformance api mrs mis ≤ totalPerformance more grown mis) :
    commonTime more grown project scale mis ≤ commonTime api mrs project scale mis :=
  ceilTo_mono (div_le_div_of_nonneg_left workNonneg total le)

/-- An agent is loaded no more in a system that performs every mission at least as well. -/
theorem agentLoad_le {more : AgentApi Id A Miss K} {grown : List A}
    (workNonneg : ∀ mis ∈ project.missions, 0 ≤ (project.mission mis).getAmountOfWork)
    (performanceNonneg : ∀ mis ∈ project.missions, ∀ agent ∈ mrs, 0 ≤ performance api mis agent)
    (grownNonneg : ∀ mis ∈ project.missions, ∀ agent ∈ grown, 0 ≤ performance more mis agent)
    (totals : ∀ mis ∈ project.missions, 0 < totalPerformance api mrs mis)
    (le : ∀ mis ∈ project.missions, totalPerformance api mrs mis ≤ totalPerformance more grown mis)
    {agent other : A}
    (same : ∀ mis ∈ project.missions, performance more mis other = performance api mis agent) :
    agentLoad more grown project scale other ≤ agentLoad api mrs project scale agent := by
  apply List.sum_le_sum
  intro mis misMem
  rw [agentTime_eq (workNonneg mis misMem) (grownNonneg mis misMem),
    agentTime_eq (workNonneg mis misMem) (performanceNonneg mis misMem), same mis misMem]
  split
  · exact commonTime_anti (workNonneg mis misMem) (totals mis misMem) (le mis misMem)
  · exact le_rfl

/-- A system stays as fast when an agent joins that performs like one of its own. -/
theorem sysTime_append_le {more : AgentApi Id A Miss K} {agent copy : A} (agentMem : agent ∈ mrs)
    (workNonneg : ∀ mis ∈ project.missions, 0 ≤ (project.mission mis).getAmountOfWork)
    (performanceNonneg : ∀ mis ∈ project.missions, ∀ agent ∈ mrs, 0 ≤ performance api mis agent)
    (totals : ∀ mis ∈ project.missions, 0 < totalPerformance api mrs mis)
    (kept : ∀ mis, ∀ other ∈ mrs, performance more mis other = performance api mis other)
    (copied : ∀ mis, performance more mis copy = performance api mis agent) :
    ((mrs ++ [copy]).map (agentLoad more (mrs ++ [copy]) project scale)).foldr max 0 ≤
      (mrs.map (agentLoad api mrs project scale)).foldr max 0 := by
  have grownNonneg : ∀ mis ∈ project.missions, ∀ other ∈ mrs ++ [copy],
      0 ≤ performance more mis other := by
    intro mis misMem other otherMem
    rcases List.mem_append.mp otherMem with old | new
    · rw [kept mis other old]
      exact performanceNonneg mis misMem other old
    · rw [List.mem_singleton.mp new, copied]
      exact performanceNonneg mis misMem agent agentMem
  have le : ∀ mis ∈ project.missions,
      totalPerformance api mrs mis ≤ totalPerformance more (mrs ++ [copy]) mis := by
    intro mis misMem
    rw [totalPerformance_append (kept mis) (copied mis)]
    exact le_add_of_nonneg_right (performanceNonneg mis misMem agent agentMem)
  have loaded : ∀ {own other : A},
      (∀ mis ∈ project.missions, performance more mis other = performance api mis own) →
        agentLoad more (mrs ++ [copy]) project scale other ≤ agentLoad api mrs project scale own :=
    fun same => agentLoad_le workNonneg performanceNonneg grownNonneg totals le same
  apply foldr_max_le (init_le_foldr_max _ _)
  intro load loadMem
  rcases List.mem_map.mp loadMem with ⟨other, otherMem, rfl⟩
  rcases List.mem_append.mp otherMem with old | new
  · apply (loaded fun mis _ => kept mis other old).trans
    exact le_foldr_max (List.mem_map_of_mem old) _
  · rw [List.mem_singleton.mp new]
    apply (loaded fun mis _ => copied mis).trans
    exact le_foldr_max (List.mem_map_of_mem agentMem) _

end MoreAgents

section Clone

variable [DecidableEq A] [DecidableEq Miss]

/-- The system time of a completely filled matrix. -/
theorem getSysTime_filled (api : AgentApi Id A Miss K) (mrs : List A)
    (project : Project Comp Miss K) (scale : ℕ)
    (nonzero : ∀ mis ∈ project.missions, totalPerformance api mrs mis ≠ 0) :
    ∃ filled, (fillTimes project scale api mrs project.missions
        (AgentMissionMatrix.new mrs project.missions)).run = some filled ∧
      filled.getSysTime = (mrs.map (agentLoad api mrs project scale)).foldr max 0 := by
  rcases fillTimes_loads api mrs project scale nonzero with ⟨filled, runs, agentsEq, loads⟩
  refine ⟨filled, runs, ?_⟩
  rw [AgentMissionMatrix.getSysTime_eq, AgentMissionMatrix.maxLoad, agentsEq, foldl_max_eq_foldr,
    List.map_congr_left loads]

variable [MathPow K] {heap : Heap Comp K}

/-- The calculator fills the matrix of heap agents as that of their components, and leaves a
coherent heap. -/
theorem computes_fillTimes_heap {agents : List AgentRef} (coherent : heap.Coherent project)
    (allocated : ∀ agent ∈ agents, agent < heap.next) (scale : ℕ)
    (timeMatrix : AgentMissionMatrix AgentRef Miss K) :
    ∃ final, (fillTimes project scale (heapApi project) agents project.missions timeMatrix).run
        heap = some ((fillTimes project scale (componentsApi project heap.components) agents
          project.missions timeMatrix).run, final) ∧
      final.Coherent project ∧ heap.Extends final := by
  have fills : Computes (Heap.Good project (· < heap.next) heap)
      (fillTimes project scale (heapApi project) agents project.missions timeMatrix)
      (fillTimes project scale (componentsApi project heap.components) agents project.missions
        timeMatrix).run := by
    apply computes_fillTimes
    intro mis _ agent agentMem
    exact computes_performance mis (allocated agent agentMem) (allocated agent agentMem)
  rcases fills heap ⟨coherent, Heap.Extends.refl heap, rfl⟩ with ⟨_, final, runs, rfl, good⟩
  exact ⟨final, runs, fun agent below => good.coherent agent (good.next_eq ▸ below), good.ext⟩

omit [FloorRing K] [DecidableEq A] [DecidableEq Miss] in
/-- Agents with the same components perform alike. -/
theorem performance_of_components_eq {own other : A} {left right : A → List Comp}
    (same : left own = right other) (mis : Miss) :
    performance (componentsApi project left) mis own =
      performance (componentsApi project right) mis other := by
  simp only [performance, componentsApi, same]

/-- One more robot of a kind already present never makes the system slower: with a clone of one
of the agents, the calculator builds a matrix with no larger system time. -/
theorem getSysTime_clone_le [IsStrictOrderedRing K] (coherent : heap.Coherent project)
    {agents : List AgentRef} (allocated : ∀ agent ∈ agents, agent < heap.next) {agent : AgentRef}
    (agentMem : agent ∈ agents) (scale : ℕ)
    (workNonneg : ∀ mis ∈ project.missions, 0 ≤ (project.mission mis).getAmountOfWork)
    (performanceNonneg : ∀ mis ∈ project.missions, ∀ agent ∈ agents,
      0 ≤ performance (componentsApi project heap.components) mis agent)
    (totals : ∀ mis ∈ project.missions,
      0 < totalPerformance (componentsApi project heap.components) agents mis) :
    ∃ built grown final,
      (do
        let built ← fillTimes project scale (heapApi project) agents project.missions
          (AgentMissionMatrix.new agents project.missions)
        let copy ← Agent.clone agent
        let grown ← fillTimes project scale (heapApi project) (agents ++ [copy]) project.missions
          (AgentMissionMatrix.new (agents ++ [copy]) project.missions)
        return (built, grown) : HeapM Comp K _).run heap =
          some ((some built, some grown), final) ∧
      grown.getSysTime ≤ built.getSysTime := by
  rcases computes_fillTimes_heap coherent allocated scale
    (AgentMissionMatrix.new agents project.missions) with
    ⟨first, firstRuns, firstCoherent, firstExt⟩
  have below : agent < first.next := (allocated agent agentMem).trans_le firstExt.next_le
  let enlarged := first.add (first.cloneObject agent)
  have ext : heap.Extends enlarged := firstExt.trans (first.extends_add _)
  have allocated' : ∀ other ∈ agents ++ [first.next], other < enlarged.next := by
    intro other otherMem
    rcases List.mem_append.mp otherMem with old | new
    · exact (allocated other old).trans_le ext.next_le
    · rw [List.mem_singleton.mp new]
      exact Nat.lt_succ_self _
  rcases computes_fillTimes_heap (firstCoherent.add_clone below) allocated' scale
    (AgentMissionMatrix.new (agents ++ [first.next]) project.missions) with
    ⟨final, secondRuns, -, -⟩
  have kept : ∀ mis, ∀ other ∈ agents,
      performance (componentsApi project enlarged.components) mis other =
        performance (componentsApi project heap.components) mis other := fun mis other otherMem =>
    performance_of_components_eq (ext.components_eq (allocated other otherMem)) mis
  have copied : ∀ mis, performance (componentsApi project enlarged.components) mis first.next =
      performance (componentsApi project heap.components) mis agent :=
    performance_of_components_eq ((first.components_add_clone agent).trans
      (firstExt.components_eq (allocated agent agentMem)))
  have grownTotals : ∀ mis ∈ project.missions, totalPerformance
      (componentsApi project enlarged.components) (agents ++ [first.next]) mis ≠ 0 := by
    intro mis misMem
    rw [totalPerformance_append (kept mis) (copied mis)]
    exact (add_pos_of_pos_of_nonneg (totals mis misMem)
      (performanceNonneg mis misMem agent agentMem)).ne'
  rcases getSysTime_filled (componentsApi project heap.components) agents project scale
    (fun mis misMem => (totals mis misMem).ne') with ⟨built, builtEq, builtTime⟩
  rcases getSysTime_filled (componentsApi project enlarged.components) (agents ++ [first.next])
    project scale grownTotals with ⟨grown, grownEq, grownTime⟩
  refine ⟨built, grown, final, ?_, ?_⟩
  · rw [builtEq] at firstRuns
    rw [grownEq] at secondRuns
    simp only [StateT.run_bind, firstRuns, clone_run below, Option.bind_eq_bind, Option.bind_some]
    change (fillTimes project scale (heapApi project) (agents ++ [first.next]) project.missions
      (AgentMissionMatrix.new (agents ++ [first.next]) project.missions)).run enlarged >>= _ = _
    rw [secondRuns]
    rfl
  · rw [builtTime, grownTime]
    exact sysTime_append_le agentMem workNonneg performanceNonneg totals kept copied

/-- The mower of the grass trimming project gets a companion. -/
theorem getSysTime_clone_le_grass :
    ∃ heap, (grassTrimmingProject 100 1).Configured heap ∧
      ∃ mower ∈ heap.agents, ∃ watcher ∈ heap.agents, ∃ built grown final,
        (do
          let built ← fillTimes (grassTrimmingProject 100 1) 0
            (heapApi (grassTrimmingProject 100 1)) [mower, watcher] [.mowing, .watching]
            (AgentMissionMatrix.new [mower, watcher] [.mowing, .watching])
          let copy ← Agent.clone mower
          let grown ← fillTimes (grassTrimmingProject 100 1) 0
            (heapApi (grassTrimmingProject 100 1)) ([mower, watcher] ++ [copy]) [.mowing, .watching]
            (AgentMissionMatrix.new ([mower, watcher] ++ [copy]) [.mowing, .watching])
          return (built, grown) : HeapM GrassComponent ℚ _).run heap =
            some ((some built, some grown), final) ∧
        grown.getSysTime ≤ built.getSysTime := by
  rcases exists_grassAgents 100 1 (by decide +kernel) (by decide +kernel) with
    ⟨heap, configured, mower, mowerMem, watcher, watcherMem, described⟩
  have components := components_of_describe described
  have performs : ∀ mis ∈ (grassTrimmingProject 100 1).missions, ∀ agent ∈ [mower, watcher],
      0 ≤ performance (componentsApi (grassTrimmingProject 100 1) heap.components) mis agent := by
    intro mis _ agent agentMem
    simp only [performance, componentsApi]
    rcases List.mem_pair.mp agentMem with rfl | rfl
    · rw [components.1]
      cases mis <;> decide +kernel
    · rw [components.2]
      cases mis <;> decide +kernel
  have totals : ∀ mis ∈ (grassTrimmingProject 100 1).missions,
      0 < totalPerformance (componentsApi (grassTrimmingProject 100 1) heap.components)
        [mower, watcher] mis := by
    intro mis _
    simp only [totalPerformance, performance, componentsApi, List.map_cons, List.map_nil,
      components.1, components.2]
    cases mis <;> decide +kernel
  have populated := configured.populated
  refine ⟨heap, configured, mower, mowerMem, watcher, watcherMem, ?_⟩
  exact getSysTime_clone_le populated.coherent (populated.allocated_pair mowerMem watcherMem)
    (List.mem_cons_self) 0 (by decide +kernel) performs totals

end Clone

end AverageOpCostCalculator

end MrsOptimization
