import MrsOptimization.Heuristic.TotalCost
import MrsOptimization.Library.WhileLoop

/-!
# The evolution loop

`MRSOptimizer.startEvolution` lets the world evolve in steps whose width grows
while the best fitness stays the same, and persists a row of the table
`evolution` whenever it changes. JGAP's `Genotype` is a parameter: any type of
worlds with any evolution and any best chromosome. The invariant of the loop
(`EvolutionLoop.Invariant`) ties the rows to the generation counter and to the
current best.
-/

namespace MrsOptimization

/-- `IChromosome`, as far as the evolution loop reads it. -/
structure Chromosome (K : Type) where
  fitnessValue : K
  genes : List AgentGene

/-- The methods of JGAP's `Genotype` on worlds of type `W`. -/
structure Genotype (W K : Type) where
  evolve : ℤ → W → W
  getFittestChromosome : W → Chromosome K

/-- A row of the table `evolution` that belongs to the current project. -/
structure Evolution (K : Type) where
  fitnessValue : K
  generation : ℤ
  agents : AgentRef → Option ℤ

/-- `EntityManager.persist` and commit: the constraint on `(project_id, generation)` makes a
second row of one generation fail. -/
def Evolution.persist {K : Type} (evo : Evolution K) (rows : List (Evolution K)) :
    Option (List (Evolution K)) :=
  if evo.generation ∈ rows.map Evolution.generation then none else some (rows ++ [evo])

/-- The rows that `experiments.sql` selects for the project. -/
def experiments {K : Type} (rows : List (Evolution K)) : List (Evolution K) :=
  rows.filter fun evo => some evo.generation = (rows.map Evolution.generation).max?

/-- The local variables of `startEvolution`, and the rows persisted so far. -/
structure EvolutionLoop (W K : Type) where
  world : W
  genNum : ℤ
  lastChangeGen : ℤ
  lastFitValue : K
  step : ℤ
  rows : List (Evolution K)

namespace MRSOptimizer

variable {W K : Type} [Field K] [DecidableEq K]

/-- The row for the best chromosome of a generation, with the agents that have instances. -/
def newEvolution (best : Chromosome K) (genNum : ℤ) : Evolution K where
  fitnessValue := best.fitnessValue
  generation := genNum
  agents := best.genes.foldl (fun agents gene =>
    if 0 < gene.instances then Function.update agents gene.agent (some gene.instances)
    else agents) fun _ => none

def evolutionStep (genotype : Genotype W K) (config : Config K) (loop : EvolutionLoop W K) :
    Option (EvolutionLoop W K) := do
  let world := genotype.evolve loop.step loop.world
  let genNum := wrap 32 (loop.genNum + loop.step)
  let best := genotype.getFittestChromosome world
  if loop.lastFitValue ≠ best.fitnessValue then
    let rows ← (newEvolution best genNum).persist loop.rows
    return ⟨world, genNum, genNum, best.fitnessValue, loop.step, rows⟩
  else
    let step := if loop.step < config.generationsStep then wrap 32 (loop.step + 1) else loop.step
    return ⟨world, genNum, loop.lastChangeGen, loop.lastFitValue, step, loop.rows⟩

/-- `startEvolution` from the initial genotype to the end of the loop. -/
def startEvolution (genotype : Genotype W K) (config : Config K) (world : W) (fuel : ℕ) :
    Option (EvolutionLoop W K) :=
  whileLoop (fun loop => loop.genNum < config.generationsLimit) (evolutionStep genotype config)
    fuel ⟨world, 0, 0, -1, 1, []⟩

end MRSOptimizer

section Rows

variable {K : Type}

/-- The rows are in order and end with the given best of the current generation. -/
structure Evolution.Recorded (rows : List (Evolution K)) (genNum : ℤ) (best : K) : Prop where
  increasing : rows.Pairwise fun earlier later => earlier.generation < later.generation
  bounded : ∀ evo ∈ rows, evo.generation ≤ genNum
  changing : rows.IsChain fun earlier later => earlier.fitnessValue ≠ later.fitnessValue
  last : ∃ evo, rows.getLast? = some evo ∧ evo.fitnessValue = best

namespace Evolution

variable {rows : List (Evolution K)} {evo : Evolution K} {genNum : ℤ} {best : K}

theorem persist_eq_some (newer : ∀ row ∈ rows, row.generation < evo.generation) :
    evo.persist rows = some (rows ++ [evo]) := by
  apply if_neg
  intro duplicate
  rcases List.mem_map.mp duplicate with ⟨row, rowMem, same⟩
  exact (newer row rowMem).ne same

theorem Recorded.singleton (evo : Evolution K) :
    Recorded [evo] evo.generation evo.fitnessValue where
  increasing := List.pairwise_singleton _ _
  bounded := by simp
  changing := List.isChain_singleton _
  last := ⟨evo, rfl, rfl⟩

theorem Recorded.mono (recorded : Recorded rows genNum best) {later : ℤ}
    (le : genNum ≤ later) : Recorded rows later best where
  increasing := recorded.increasing
  bounded row rowMem := (recorded.bounded row rowMem).trans le
  changing := recorded.changing
  last := recorded.last

theorem Recorded.append (recorded : Recorded rows genNum best)
    (later : genNum < evo.generation) (changed : best ≠ evo.fitnessValue) :
    Recorded (rows ++ [evo]) evo.generation evo.fitnessValue where
  increasing := by
    rw [List.pairwise_append]
    refine ⟨recorded.increasing, List.pairwise_singleton _ _, fun row rowMem other otherMem => ?_⟩
    rw [List.mem_singleton.mp otherMem]
    exact (recorded.bounded row rowMem).trans_lt later
  bounded row rowMem := by
    rcases List.mem_append.mp rowMem with old | new
    · exact (recorded.bounded row old).trans later.le
    · rw [List.mem_singleton.mp new]
  changing := by
    rcases recorded.last with ⟨last, lastEq, bestEq⟩
    rw [List.isChain_append]
    refine ⟨recorded.changing, List.isChain_singleton _, fun row rowLast other otherHead => ?_⟩
    rw [lastEq, Option.mem_some_iff] at rowLast
    rw [List.head?_cons, Option.mem_some_iff] at otherHead
    rw [← rowLast, ← otherHead, bestEq]
    exact changed
  last := ⟨evo, by simp, rfl⟩

theorem Recorded.experiments_eq (recorded : Recorded rows genNum best) :
    ∃ evo, experiments rows = [evo] ∧ evo.fitnessValue = best := by
  rcases recorded.last with ⟨evo, lastEq, bestEq⟩
  rcases List.getLast?_eq_some_iff.mp lastEq with ⟨earlier, split⟩
  refine ⟨evo, ?_, bestEq⟩
  have increasing := recorded.increasing
  rw [split, List.pairwise_append] at increasing
  have below : ∀ row ∈ earlier, row.generation < evo.generation := fun row rowMem =>
    increasing.2.2 row rowMem evo (List.mem_singleton_self evo)
  have greatest : (rows.map Evolution.generation).max? = some evo.generation := by
    rw [List.max?_eq_some_iff]
    refine ⟨by simp [split], fun generation member => ?_⟩
    rcases List.mem_map.mp member with ⟨row, rowMem, rfl⟩
    rw [split] at rowMem
    rcases List.mem_append.mp rowMem with old | new
    · exact (below row old).le
    · rw [List.mem_singleton.mp new]
  have noneEarlier : earlier.filter
      (fun row => some row.generation = some evo.generation) = [] := by
    rw [List.filter_eq_nil_iff]
    intro row rowMem
    simpa using (below row rowMem).ne
  rw [experiments, greatest, split, List.filter_append, noneEarlier]
  simp

end Evolution

end Rows

section Correctness

variable {W K : Type} [Field K] [LinearOrder K] [IsStrictOrderedRing K]

/-- The invariant of the loop, for a world that counts its generations. -/
structure EvolutionLoop.Invariant (genotype : Genotype W K) (generations : W → ℤ) (world : W)
    (config : Config K) (loop : EvolutionLoop W K) : Prop where
  step_pos : 1 ≤ loop.step
  step_le : loop.step ≤ max 1 config.generationsStep
  counted : generations loop.world = generations world + loop.genNum
  overshoot : loop.genNum ≤ config.generationsLimit - 1 + max 1 config.generationsStep
  recorded : loop.genNum = 0 ∧ loop.lastFitValue = -1 ∧ loop.rows = [] ∨
    0 < loop.genNum ∧ Evolution.Recorded loop.rows loop.genNum loop.lastFitValue ∧
      loop.lastFitValue = (genotype.getFittestChromosome loop.world).fitnessValue

namespace MRSOptimizer

variable {genotype : Genotype W K} {generations : W → ℤ} {world : W} {config : Config K}

/-- One pass of the loop keeps the invariant and advances the generation counter. -/
theorem evolutionStep_invariant (limitInt : config.generationsLimit < 2 ^ 31)
    (noOverflow : config.generationsLimit + config.generationsStep < 2 ^ 31)
    (evolves : ∀ world step, 0 < step →
      generations (genotype.evolve step world) = generations world + step)
    (nonneg : ∀ world step,
      0 ≤ (genotype.getFittestChromosome (genotype.evolve step world)).fitnessValue)
    {loop : EvolutionLoop W K} (invariant : loop.Invariant genotype generations world config)
    (continues : loop.genNum < config.generationsLimit) :
    ∃ next, evolutionStep genotype config loop = some next ∧
      next.Invariant genotype generations world config ∧ loop.genNum < next.genNum := by
  rcases invariant with ⟨stepPos, stepLe, counted, overshoot, recorded⟩
  have genNonneg : 0 ≤ loop.genNum := by
    rcases recorded with ⟨zero, -, -⟩ | ⟨positive, -, -⟩ <;> omega
  have gen : wrap 32 (loop.genNum + loop.step) = loop.genNum + loop.step :=
    wrap_of_mem_range (by omega) (by omega)
  let newWorld := genotype.evolve loop.step loop.world
  let best := genotype.getFittestChromosome newWorld
  have newCounted : generations newWorld = generations world + (loop.genNum + loop.step) := by
    rw [evolves loop.world loop.step (by omega), counted, add_assoc]
  by_cases changed : loop.lastFitValue ≠ best.fitnessValue
  · let row := newEvolution best (loop.genNum + loop.step)
    have recordedNext : row.persist loop.rows = some (loop.rows ++ [row]) ∧
        Evolution.Recorded (loop.rows ++ [row]) row.generation row.fitnessValue := by
      rcases recorded with ⟨-, -, noRows⟩ | ⟨-, earlier, -⟩
      · rw [noRows]
        exact ⟨Evolution.persist_eq_some (by simp), Evolution.Recorded.singleton row⟩
      · have later : loop.genNum < row.generation := by
          change loop.genNum < loop.genNum + loop.step
          omega
        exact ⟨Evolution.persist_eq_some fun evo evoMem =>
          (earlier.bounded evo evoMem).trans_lt later, earlier.append later changed⟩
    refine ⟨⟨newWorld, loop.genNum + loop.step, loop.genNum + loop.step, best.fitnessValue,
      loop.step, loop.rows ++ [row]⟩, ?_, ⟨stepPos, stepLe, newCounted, ?_, Or.inr
      ⟨?_, recordedNext.2, rfl⟩⟩, ?_⟩
    · simp only [evolutionStep, gen]
      rw [if_pos changed]
      change (row.persist loop.rows).bind _ = _
      rw [recordedNext.1]
      rfl
    all_goals dsimp only
    all_goals omega
  · have unchanged : loop.lastFitValue = best.fitnessValue := not_not.mp changed
    rcases recorded with ⟨-, initial, -⟩ | ⟨-, earlier, -⟩
    · have positive := nonneg loop.world loop.step
      rw [show (genotype.getFittestChromosome _).fitnessValue = loop.lastFitValue from
        unchanged.symm, initial] at positive
      linarith
    · have widened : ∃ step, (if loop.step < config.generationsStep then wrap 32 (loop.step + 1)
          else loop.step) = step ∧ 1 ≤ step ∧ step ≤ max 1 config.generationsStep := by
        by_cases narrow : loop.step < config.generationsStep
        · refine ⟨loop.step + 1, ?_, by omega, by omega⟩
          rw [if_pos narrow]
          exact wrap_of_mem_range (by omega) (by omega)
        · exact ⟨loop.step, if_neg narrow, stepPos, stepLe⟩
      rcases widened with ⟨step, stepEq, newStepPos, newStepLe⟩
      refine ⟨⟨newWorld, loop.genNum + loop.step, loop.lastChangeGen, loop.lastFitValue, step,
        loop.rows⟩, ?_, ⟨newStepPos, newStepLe, newCounted, ?_, Or.inr
        ⟨?_, earlier.mono ?_, unchanged⟩⟩, ?_⟩
      · simp only [evolutionStep, gen, stepEq]
        rw [if_neg changed]
        rfl
      all_goals dsimp only
      all_goals omega

/-- The loop ends for every pattern of best values, and the row with the greatest generation
carries the final best. -/
theorem startEvolution_spec (genotype : Genotype W K) (generations : W → ℤ)
    (config : Config K) (world : W) (limitPos : 0 < config.generationsLimit)
    (limitInt : config.generationsLimit < 2 ^ 31)
    (noOverflow : config.generationsLimit + config.generationsStep < 2 ^ 31)
    (evolves : ∀ world step, 0 < step →
      generations (genotype.evolve step world) = generations world + step)
    (nonneg : ∀ world step,
      0 ≤ (genotype.getFittestChromosome (genotype.evolve step world)).fitnessValue) :
    ∃ final, (∀ fuel, config.generationsLimit.toNat < fuel →
        startEvolution genotype config world fuel = some final) ∧
      config.generationsLimit ≤ final.genNum ∧
      final.genNum ≤ config.generationsLimit - 1 + max 1 config.generationsStep ∧
      generations final.world = generations world + final.genNum ∧
      (final.rows.Pairwise fun earlier later => earlier.generation < later.generation) ∧
      (final.rows.IsChain fun earlier later => earlier.fitnessValue ≠ later.fitnessValue) ∧
      ∃ result, experiments final.rows = [result] ∧
        result.fitnessValue = (genotype.getFittestChromosome final.world).fitnessValue := by
  have start : EvolutionLoop.Invariant genotype generations world config
      ⟨world, 0, 0, -1, 1, []⟩ :=
    ⟨le_rfl, le_max_left 1 _, (add_zero _).symm, by dsimp only; omega, Or.inl ⟨rfl, rfl, rfl⟩⟩
  have step : ∀ loop : EvolutionLoop W K,
      loop.Invariant genotype generations world config →
      decide (loop.genNum < config.generationsLimit) = true →
      ∃ next, evolutionStep genotype config loop = some next ∧
        next.Invariant genotype generations world config ∧
        (config.generationsLimit - next.genNum).toNat <
          (config.generationsLimit - loop.genNum).toNat := by
    intro loop invariant guard
    have continues : loop.genNum < config.generationsLimit := of_decide_eq_true guard
    rcases evolutionStep_invariant limitInt noOverflow evolves nonneg invariant continues with
      ⟨next, runs, kept, advances⟩
    exact ⟨next, runs, kept, by omega⟩
  rcases whileLoop_total step start with
    ⟨final, runs, ⟨-, -, counted, overshoot, recorded⟩, finished⟩
  have reached : config.generationsLimit ≤ final.genNum := by simpa using finished
  rcases recorded with ⟨zero, -, -⟩ | ⟨-, recorded, current⟩
  · omega
  · refine ⟨final, fun fuel enough => runs fuel (by simpa using enough), reached, overshoot,
      counted, recorded.increasing, recorded.changing, ?_⟩
    rw [← current]
    exact recorded.experiments_eq

/-- A world whose best fitness improves once, in its tenth generation. -/
def improvingGenotype : Genotype ℤ ℚ where
  evolve step world := world + step
  getFittestChromosome world := ⟨if world < 10 then 100 else 50, []⟩

theorem startEvolution_spec_improving :
    ∃ final, startEvolution improvingGenotype ⟨20, 5, 10 ^ 14, 1 / 10 ^ 14⟩ 0 21 = some final ∧
      20 ≤ final.genNum ∧ final.genNum ≤ 24 ∧
      ∃ result, experiments final.rows = [result] ∧ result.fitnessValue = 50 := by
  rcases startEvolution_spec improvingGenotype (fun world => world)
    ⟨20, 5, 10 ^ 14, 1 / 10 ^ 14⟩ 0 (by decide) (by decide) (by decide) (fun _ _ _ => rfl)
    (fun world step => by dsimp only [improvingGenotype]; split <;> norm_num) with
    ⟨final, runs, reached, overshoot, counted, -, -, result, resultEq, best⟩
  refine ⟨final, runs 21 (by decide), reached, overshoot, result, resultEq, ?_⟩
  have late : ¬final.world < 10 := by
    change final.world = 0 + final.genNum at counted
    change (20 : ℤ) ≤ final.genNum at reached
    omega
  rw [best]
  exact if_neg late

end MRSOptimizer

end Correctness

end MrsOptimization
