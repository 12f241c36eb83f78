import MrsOptimization.Heuristic.Missions
import MrsOptimization.Heuristic.TimeMatrix
import MrsOptimization.Library.Triple
import Mathlib.Algebra.Order.Floor.Ring

/-!
# The average operating cost calculator

`AverageOpCostCalculator.calcOpCosts` gives all agents able to perform a mission
the same time, the work divided by their total performance, and charges the time
matrix. `calcOpCosts_closed` evaluates it for arbitrary performances; for
non-negative performances and amounts of work the clamping of the matrix has no
effect (`calcOpCosts_eq`).
-/

namespace MrsOptimization

variable {A Comp Miss K : Type} [Field K] [LinearOrder K]

/-- `new BigDecimal(value).setScale(scale, RoundingMode.UP)`: rounding away from zero. -/
def roundUp [FloorRing K] (scale : ℕ) (value : K) : K :=
  let unit : ℕ := 10 ^ scale
  if 0 ≤ value then ⌈value * unit⌉ / unit else ⌊value * unit⌋ / unit

namespace AverageOpCostCalculator

section Code

variable [DecidableEq A] [DecidableEq Miss] [FloorRing K] [MathPow K]
  {m : Type → Type} [Monad m]

def missionTime (project : Project Comp Miss K) (scale : ℕ) (mis : Miss) (totalPerf : K) : K :=
  roundUp scale ((project.mission mis).getAmountOfWork / totalPerf)

/-- The loop that fills the time matrix; `none` when a mission has no performance at all. -/
def fillTimes (project : Project Comp Miss K) (scale : ℕ) (api : AgentApi m A Miss K)
    (mrs : List A) :
    List Miss → AgentMissionMatrix A Miss K → m (Option (AgentMissionMatrix A Miss K))
  | [], timeMatrix => return some timeMatrix
  | mis :: rest, timeMatrix => do
      let totalPerf ← mrs.foldlM (fun totalPerf agent => do
        let performance ← api.getAgentPerformance mis agent
        return totalPerf + performance) 0
      if totalPerf = 0 then
        return none
      else
        let timeMatrix ← mrs.foldlM (fun timeMatrix agent => do
          let performance ← api.getAgentPerformance mis agent
          if 0 < performance then
            return timeMatrix.setValue agent mis (missionTime project scale mis totalPerf)
          else
            return timeMatrix) timeMatrix
        fillTimes project scale api mrs rest timeMatrix

def calcOpCosts (project : Project Comp Miss K) (scale : ℕ) (api : AgentApi m A Miss K)
    (mrs : List A) (Qinv : K) : m K := do
  let timeMatrix := AgentMissionMatrix.new mrs project.missions
  let filled ← fillTimes project scale api mrs project.missions timeMatrix
  match filled with
  | none => return project.config.nearInfinity
  | some timeMatrix =>
      timeMatrix.getCosts project.costModel api.getOperatingEnergy Qinv

end Code

section Evaluation

variable (api : AgentApi Id A Miss K) (mrs : List A)

def performance (mis : Miss) (agent : A) : K :=
  (api.getAgentPerformance mis agent).run

def energy (agent : A) : K :=
  (api.getOperatingEnergy agent).run

def totalPerformance (mis : Miss) : K :=
  (mrs.map (performance api mis)).sum

variable [FloorRing K] (project : Project Comp Miss K) (scale : ℕ)

/-- The time that ends up in the cell of an agent and a mission. -/
def agentTime (mis : Miss) (agent : A) : K :=
  if 0 < performance api mis agent then
    let time := missionTime project scale mis (totalPerformance api mrs mis)
    if 0 < time then time else 0
  else 0

variable [DecidableEq A] [DecidableEq Miss]

variable {api mrs project scale}

omit [LinearOrder K] [FloorRing K] [DecidableEq A] [DecidableEq Miss] in
theorem totalPerf_loop (mis : Miss) :
    (mrs.foldlM (m := Id) (fun totalPerf agent => do
      let performance ← api.getAgentPerformance mis agent
      return totalPerf + performance) 0).run = totalPerformance api mrs mis := by
  have general : ∀ (agents : List A) (acc : K),
      agents.foldl (fun totalPerf agent => totalPerf + performance api mis agent) acc =
        acc + (agents.map (performance api mis)).sum := by
    intro agents
    induction agents with
    | nil => simp
    | cons agent rest ih => intro acc; simp [ih, add_assoc]
  rw [List.idRun_foldlM, totalPerformance, ← zero_add (List.sum _), ← general]
  rfl

omit [FloorRing K] in
theorem setTimes_loop (api : AgentApi Id A Miss K) {mis : Miss} (time : K)
    {timeMatrix : AgentMissionMatrix A Miss K} (missionMem : mis ∈ timeMatrix.missions)
    {agents : List A}
    (agentsMem : ∀ agent ∈ agents, agent ∈ timeMatrix.agents) :
    let filled := (agents.foldlM (m := Id) (fun timeMatrix agent => do
      let performance ← api.getAgentPerformance mis agent
      if 0 < performance then return timeMatrix.setValue agent mis time
      else return timeMatrix) timeMatrix).run
    filled.agents = timeMatrix.agents ∧ filled.missions = timeMatrix.missions ∧
      ∀ agent other, filled.getValue agent other =
        if other = mis ∧ agent ∈ agents ∧ 0 < performance api mis agent then
          (if 0 < time then time else 0)
        else timeMatrix.getValue agent other := by
  intro filled
  let step : AgentMissionMatrix A Miss K → A → AgentMissionMatrix A Miss K :=
    fun timeMatrix agent =>
      if 0 < performance api mis agent then timeMatrix.setValue agent mis time else timeMatrix
  have folded : filled = agents.foldl step timeMatrix := List.idRun_foldlM
  clear_value filled
  subst folded
  induction agents generalizing timeMatrix with
  | nil => exact ⟨rfl, rfl, by simp⟩
  | cons head rest ih =>
      rw [List.foldl_cons]
      have restMem : ∀ agent ∈ rest, agent ∈ timeMatrix.agents :=
        fun agent agentMem => agentsMem agent (List.mem_cons_of_mem head agentMem)
      by_cases capable : 0 < performance api mis head
      · have set : step timeMatrix head = timeMatrix.setValue head mis time := if_pos capable
        rw [set]
        have later := @ih (timeMatrix.setValue head mis time) missionMem restMem
        rcases later with ⟨agentsEq, missionsEq, values⟩
        refine ⟨agentsEq, missionsEq, fun agent other => ?_⟩
        rw [values, AgentMissionMatrix.getValue_setValue (agentsMem head List.mem_cons_self)
          missionMem]
        by_cases same : agent = head
        · subst same
          by_cases column : other = mis <;> simp [capable, column]
        · simp [same, List.mem_cons]
      · have kept : step timeMatrix head = timeMatrix := if_neg capable
        rw [kept]
        rcases ih missionMem restMem with ⟨agentsEq, missionsEq, values⟩
        refine ⟨agentsEq, missionsEq, fun agent other => ?_⟩
        rw [values]
        by_cases same : agent = head
        · subst same
          simp [capable]
        · simp [same, List.mem_cons]

theorem fillTimes_cons (mis : Miss) (rest : List Miss)
    (timeMatrix : AgentMissionMatrix A Miss K) :
    (fillTimes project scale api mrs (mis :: rest) timeMatrix).run =
      if totalPerformance api mrs mis = 0 then none
      else (fillTimes project scale api mrs rest
        (mrs.foldlM (m := Id) (fun timeMatrix agent => do
          let performance ← api.getAgentPerformance mis agent
          if 0 < performance then
            return timeMatrix.setValue agent mis
              (missionTime project scale mis (totalPerformance api mrs mis))
          else return timeMatrix) timeMatrix).run).run := by
  rw [fillTimes, Id.run_bind, totalPerf_loop mis]
  by_cases zero : totalPerformance api mrs mis = 0
  · simp [zero]
  · rw [if_neg zero, if_neg zero, Id.run_bind]

theorem fillTimes_eq_none {pending : List Miss} (timeMatrix : AgentMissionMatrix A Miss K)
    (zero : ∃ mis ∈ pending, totalPerformance api mrs mis = 0) :
    (fillTimes project scale api mrs pending timeMatrix).run = none := by
  induction pending generalizing timeMatrix with
  | nil => simp at zero
  | cons mis rest ih =>
      rw [fillTimes_cons]
      by_cases here : totalPerformance api mrs mis = 0
      · rw [if_pos here]
      · rw [if_neg here]
        apply ih
        simpa [here] using zero

theorem fillTimes_eq_some (api : AgentApi Id A Miss K) (mrs : List A)
    (project : Project Comp Miss K) (scale : ℕ) {pending : List Miss}
    {timeMatrix : AgentMissionMatrix A Miss K} (agentsEq : timeMatrix.agents = mrs)
    (pendingMem : ∀ mis ∈ pending, mis ∈ timeMatrix.missions)
    (nonzero : ∀ mis ∈ pending, totalPerformance api mrs mis ≠ 0) :
    ∃ filled, (fillTimes project scale api mrs pending timeMatrix).run = some filled ∧
      filled.agents = mrs ∧ filled.missions = timeMatrix.missions ∧
      ∀ agent ∈ mrs, ∀ mis, filled.getValue agent mis =
        if mis ∈ pending ∧ 0 < performance api mis agent then
          agentTime api mrs project scale mis agent
        else timeMatrix.getValue agent mis := by
  induction pending generalizing timeMatrix with
  | nil => exact ⟨timeMatrix, rfl, agentsEq, rfl, by simp⟩
  | cons head rest ih =>
      rw [fillTimes_cons, if_neg (nonzero head List.mem_cons_self)]
      have column := setTimes_loop api
        (missionTime project scale head (totalPerformance api mrs head))
        (pendingMem head List.mem_cons_self) (fun agent (agentMem : agent ∈ mrs) =>
          agentsEq ▸ agentMem)
      dsimp only at column
      rcases column with ⟨columnAgents, columnMissions, columnValues⟩
      rcases ih (columnAgents.trans agentsEq)
        (fun mis misMem => columnMissions ▸ pendingMem mis (List.mem_cons_of_mem head misMem))
        (fun mis misMem => nonzero mis (List.mem_cons_of_mem head misMem)) with
        ⟨filled, runs, filledAgents, filledMissions, values⟩
      refine ⟨filled, runs, filledAgents, filledMissions.trans columnMissions, ?_⟩
      intro agent agentMem mis
      rw [values agent agentMem mis, columnValues]
      by_cases same : mis = head
      · subst same
        by_cases capable : 0 < performance api mis agent <;> simp [agentMem, agentTime, capable]
      · simp [same]

def agentLoad (api : AgentApi Id A Miss K) (mrs : List A) (project : Project Comp Miss K)
    (scale : ℕ) (agent : A) : K :=
  (project.missions.map fun mis => agentTime api mrs project scale mis agent).sum

theorem fillTimes_loads (api : AgentApi Id A Miss K) (mrs : List A)
    (project : Project Comp Miss K) (scale : ℕ)
    (nonzero : ∀ mis ∈ project.missions, totalPerformance api mrs mis ≠ 0) :
    ∃ filled, (fillTimes project scale api mrs project.missions
        (AgentMissionMatrix.new mrs project.missions)).run = some filled ∧
      filled.agents = mrs ∧
      ∀ agent ∈ mrs, filled.load agent = agentLoad api mrs project scale agent := by
  rcases fillTimes_eq_some api mrs project scale
    (rfl : (AgentMissionMatrix.new mrs project.missions).agents = mrs)
    (fun _ (misMem : _ ∈ project.missions) => misMem) nonzero with
    ⟨filled, runs, agentsEq, missionsEq, values⟩
  refine ⟨filled, runs, agentsEq, fun agent agentMem => ?_⟩
  rw [AgentMissionMatrix.load, missionsEq, agentLoad]
  congr 1
  apply List.map_congr_left
  intro mis misMem
  rw [values agent agentMem mis]
  by_cases capable : 0 < performance api mis agent
  · simp [capable, show mis ∈ project.missions from misMem]
  · simp [capable, agentTime]

/-- The result of `calcOpCosts` in closed form, for any performances and amounts of work. -/
theorem calcOpCosts_closed [MathPow K] (Qinv : K) :
    (calcOpCosts project scale api mrs Qinv).run =
      if ∃ mis ∈ project.missions, totalPerformance api mrs mis = 0 then
        project.config.nearInfinity
      else
        (mrs.map fun agent => energy api agent * agentLoad api mrs project scale agent).sum +
          (project.costModel.calcSysMaint mrs.length +
              project.costModel.systemReplRate * Qinv) *
            mrs.foldl (fun maxValue agent =>
              max (agentLoad api mrs project scale agent) maxValue) 0 := by
  rw [calcOpCosts, Id.run_bind]
  by_cases zero : ∃ mis ∈ project.missions, totalPerformance api mrs mis = 0
  · rw [fillTimes_eq_none _ zero, if_pos zero]
    rfl
  · rw [if_neg zero]
    push Not at zero
    rcases fillTimes_loads api mrs project scale zero with ⟨filled, runs, agentsEq, loads⟩
    rw [runs]
    dsimp only
    rw [AgentMissionMatrix.getCosts_id, AgentMissionMatrix.maxLoad, agentsEq]
    congr 1
    · congr 1
      apply List.map_congr_left
      intro agent agentMem
      rw [loads agent agentMem]
      rfl
    · congr 1
      apply List.foldl_ext
      intro maxValue agent agentMem
      rw [loads agent agentMem]

end Evaluation

section Caches

variable [DecidableEq A] [DecidableEq Miss] [FloorRing K] [MathPow K] {σ : Type}
  {inv : σ → Prop} {api : AgentApi (StateT σ Option) A Miss K} {pureApi : AgentApi Id A Miss K}
  {mrs : List A} {project : Project Comp Miss K} {scale : ℕ}

omit [MathPow K] in
theorem computes_fillTimes {pending : List Miss}
    (performances : ∀ mis ∈ pending, ∀ agent ∈ mrs,
      Computes inv (api.getAgentPerformance mis agent) (performance pureApi mis agent))
    (timeMatrix : AgentMissionMatrix A Miss K) :
    Computes inv (fillTimes project scale api mrs pending timeMatrix)
      (fillTimes project scale pureApi mrs pending timeMatrix).run := by
  induction pending generalizing timeMatrix with
  | nil => exact Computes.pure_run _
  | cons mis rest ih =>
      have here := performances mis List.mem_cons_self
      have later := ih fun other otherMem => performances other (List.mem_cons_of_mem mis otherMem)
      rw [fillTimes, fillTimes]
      refine Computes.bind_run (Computes.foldlM_run ?_ 0) ?_
      · intro totalPerf agent agentMem
        exact Computes.bind_run (here agent agentMem) (Computes.pure_run _)
      · split
        · exact Computes.pure_run _
        · refine Computes.bind_run (Computes.foldlM_run ?_ timeMatrix) (later _)
          intro filled agent agentMem
          refine Computes.bind_run (here agent agentMem) ?_
          change Computes inv (if 0 < performance pureApi mis agent then _ else _)
            (if 0 < performance pureApi mis agent then _ else _ : Id _).run
          split
          · exact Computes.pure_run _
          · exact Computes.pure_run _

omit [FloorRing K] in
theorem computes_getCosts {timeMatrix : AgentMissionMatrix A Miss K}
    (energies : ∀ agent ∈ timeMatrix.agents,
      Computes inv (api.getOperatingEnergy agent) (energy pureApi agent))
    (costModel : CostModel K) (sysCosts : K) :
    Computes inv (timeMatrix.getCosts costModel api.getOperatingEnergy sysCosts)
      (timeMatrix.getCosts costModel pureApi.getOperatingEnergy sysCosts).run := by
  refine Computes.bind_run (Computes.foldlM_run ?_ _) (Computes.pure_run _)
  rintro ⟨maxValue, result⟩ agent agentMem
  refine Computes.bind_run (Computes.foldlM_run ?_ _) (Computes.pure_run _)
  rintro ⟨result, agentValue⟩ mis -
  exact Computes.bind_run (energies agent agentMem) (Computes.pure_run _)

/-- If every agent answers through its caches what it would answer without them, then so
does the calculator. -/
theorem computes_calcOpCosts
    (performances : ∀ mis ∈ project.missions, ∀ agent ∈ mrs,
      Computes inv (api.getAgentPerformance mis agent) (performance pureApi mis agent))
    (energies : ∀ agent ∈ mrs,
      Computes inv (api.getOperatingEnergy agent) (energy pureApi agent)) (Qinv : K) :
    Computes inv (calcOpCosts project scale api mrs Qinv)
      (calcOpCosts project scale pureApi mrs Qinv).run := by
  refine Computes.bind_run (computes_fillTimes performances _) ?_
  by_cases zero : ∃ mis ∈ project.missions, totalPerformance pureApi mrs mis = 0
  · rw [fillTimes_eq_none _ zero]
    exact Computes.pure_run _
  · push Not at zero
    rcases fillTimes_eq_some pureApi mrs project scale
      (rfl : (AgentMissionMatrix.new mrs project.missions).agents = mrs)
      (fun _ (misMem : _ ∈ project.missions) => misMem) zero with
      ⟨filled, runs, agentsEq, -, -⟩
    rw [runs]
    exact computes_getCosts (fun agent agentMem => energies agent (agentsEq ▸ agentMem)) _ _

end Caches

section NonNegative

variable [IsStrictOrderedRing K] [FloorRing K]

def ceilTo (scale : ℕ) (value : K) : K :=
  let unit : ℕ := 10 ^ scale
  ⌈value * unit⌉ / unit

/-- `ceilTo` is the least multiple of `10 ^ -scale` that is not below the value. -/
theorem isLeast_ceilTo (scale : ℕ) (value : K) :
    IsLeast {time : K | value ≤ time ∧ ∃ steps : ℤ, time = steps / (10 ^ scale : ℕ)}
      (ceilTo scale value) := by
  have unit : (0 : K) < (10 ^ scale : ℕ) := by positivity
  refine ⟨⟨?_, _, rfl⟩, ?_⟩
  · rw [ceilTo, le_div_iff₀ unit]
    exact Int.le_ceil _
  · rintro _ ⟨above, steps, rfl⟩
    rw [ceilTo, div_le_div_iff_of_pos_right unit, Int.cast_le, Int.ceil_le]
    exact (le_div_iff₀ unit).mp above

theorem ceilTo_nonneg (scale : ℕ) {value : K} (nonneg : 0 ≤ value) : 0 ≤ ceilTo scale value :=
  nonneg.trans (isLeast_ceilTo scale value).1.1

omit [IsStrictOrderedRing K] in
theorem roundUp_of_nonneg (scale : ℕ) {value : K} (nonneg : 0 ≤ value) :
    roundUp scale value = ceilTo scale value :=
  if_pos nonneg

variable (api : AgentApi Id A Miss K) (mrs : List A) (project : Project Comp Miss K) (scale : ℕ)

/-- The common working time of a mission: work over total performance, rounded up. -/
def commonTime (mis : Miss) : K :=
  ceilTo scale ((project.mission mis).getAmountOfWork / totalPerformance api mrs mis)

variable {api mrs project scale}

omit [FloorRing K] in
theorem totalPerformance_nonneg {mis : Miss}
    (performanceNonneg : ∀ agent ∈ mrs, 0 ≤ performance api mis agent) :
    0 ≤ totalPerformance api mrs mis := by
  apply List.sum_nonneg
  simpa using performanceNonneg

/-- Without negative work or performance the matrix takes the common time as it is. -/
theorem agentTime_eq {mis : Miss} (workNonneg : 0 ≤ (project.mission mis).getAmountOfWork)
    (performanceNonneg : ∀ agent ∈ mrs, 0 ≤ performance api mis agent) (agent : A) :
    agentTime api mrs project scale mis agent =
      if 0 < performance api mis agent then commonTime api mrs project scale mis else 0 := by
  have quotient :=
    div_nonneg workNonneg (totalPerformance_nonneg performanceNonneg)
  have nonneg := ceilTo_nonneg scale quotient
  rw [agentTime, missionTime, roundUp_of_nonneg scale quotient]
  dsimp only [commonTime]
  rcases nonneg.eq_or_lt with zero | positive
  · simp [← zero]
  · simp [positive]

/-- The value of `calcOpCosts` for non-negative performances and amounts of work. -/
theorem calcOpCosts_eq [DecidableEq A] [DecidableEq Miss] [MathPow K]
    (api : AgentApi Id A Miss K) (mrs : List A) (project : Project Comp Miss K) (scale : ℕ)
    (Qinv : K) (workNonneg : ∀ mis ∈ project.missions, 0 ≤ (project.mission mis).getAmountOfWork)
    (performanceNonneg : ∀ mis ∈ project.missions, ∀ agent ∈ mrs,
      0 ≤ performance api mis agent) :
    (calcOpCosts project scale api mrs Qinv).run =
      if ∃ mis ∈ project.missions, totalPerformance api mrs mis = 0 then
        project.config.nearInfinity
      else
        (project.missions.map fun mis => commonTime api mrs project scale mis *
            ((mrs.filter fun agent => 0 < performance api mis agent).map (energy api)).sum).sum +
          (project.costModel.calcSysMaint mrs.length +
              project.costModel.systemReplRate * Qinv) *
            (mrs.map fun agent => ((project.missions.filter fun mis =>
              0 < performance api mis agent).map (commonTime api mrs project scale)).sum).foldr
                max 0 := by
  have loads : ∀ agent, agentLoad api mrs project scale agent =
      (project.missions.map fun mis => if 0 < performance api mis agent then
        commonTime api mrs project scale mis else 0).sum := by
    intro agent
    rw [agentLoad]
    congr 1
    apply List.map_congr_left
    intro mis misMem
    exact agentTime_eq (workNonneg mis misMem) (performanceNonneg mis misMem) agent
  rw [calcOpCosts_closed]
  congr 2
  · simp only [loads]
    exact sum_exchange (energy api) (fun mis agent => 0 < performance api mis agent)
      (commonTime api mrs project scale) mrs project.missions
  · rw [foldl_max_eq_foldr]
    congr 2
    apply List.map_congr_left
    intro agent _
    rw [loads agent, sum_ite_zero]

/-- Two mowers, the second of which carries a camera as well. -/
def mowersApi : AgentApi Id ℕ GrassMission ℚ where
  getAgentPerformance
    | .mowing, _ => return 12 / 5
    | .watching, agent => return if agent = 1 then 1 else 0
  getOperatingEnergy agent := return if agent = 1 then 10 else 9

theorem calcOpCosts_eq_mowers :
    (calcOpCosts (grassTrimmingProject 100 1) 0 mowersApi [0, 1] 5000).run =
      37137380435218303225961 / 1250000000000000000 := by
  rw [calcOpCosts_eq mowersApi [0, 1] (grassTrimmingProject 100 1) 0 5000 (by decide +kernel)
    (by decide +kernel)]
  decide +kernel

end NonNegative

end AverageOpCostCalculator

end MrsOptimization
