import MrsOptimization.Control.BehaviorNetwork
import MrsOptimization.Library.Batches
import Mathlib.Data.Finset.Basic

/-!
# The grass that the mower counts

In every cycle the controller of a mower hands the last reading of the cropper to its
brains, passes the grass they report to the world, and places a straw when the brains
ask for one. `MowGrassBehavior` adds the ids of the reading to a load set, and
`CreateStrawBehavior` clears that set when it is full; the two share the set, and the
reading stays until a new one arrives.
-/

namespace MrsOptimization

inductive Command where
  | mowGrass
  | placeStraw
  deriving DecidableEq

structure WorldControlSignal where
  cmd : Command
  objects : List String
  deriving DecidableEq

/-- The set of the load signal. The field `counted` collects what is cleared from the set; no
code reads it. -/
structure Load where
  value : Finset ℤ
  counted : Finset ℤ

namespace MowGrassBehavior

/-- A reading is the list of the fiducial ids. -/
def getOutputInternal (data : Option (List ℤ)) (load : Load) :
    Option WorldControlSignal × Load :=
  match data with
  | none => (none, load)
  | some fiducials =>
      if fiducials.length = 0 then (none, load)
      else
        (some ⟨.mowGrass, fiducials.map fun id => "grass" ++ toString id⟩,
          { load with value := load.value ∪ fiducials.toFinset })

end MowGrassBehavior

namespace CreateStrawBehavior

def getOutputInternal (maxLoad : ℕ) (load : Load) : Option WorldControlSignal × Load :=
  if maxLoad ≤ load.value.card then
    (some ⟨.placeStraw, []⟩, ⟨∅, load.counted ∪ load.value⟩)
  else (none, load)

end CreateStrawBehavior

namespace RobotMowerBrains

inductive WorldControlNode where
  | outGrassMow
  | outStrawCreate
  | behMowGrass
  | behCreateStraw
  deriving DecidableEq

def worldControlNetwork (maxLoad : ℕ) :
    Network WorldControlNode (Option (List ℤ)) Load WorldControlSignal where
  node
    | .outGrassMow => .dummy .behMowGrass
    | .outStrawCreate => .dummy .behCreateStraw
    | _ => .leaf
  internal
    | .behMowGrass => MowGrassBehavior.getOutputInternal
    | .behCreateStraw => fun _ load => CreateStrawBehavior.getOutputInternal maxLoad load
    | _ => fun _ load => (none, load)
  rank
    | .outGrassMow | .outStrawCreate => 1
    | _ => 0
  acyclic := by
    intro i
    cases i <;> simp [Node.inputs]

end RobotMowerBrains

namespace RobotMowerCtrl

open RobotMowerBrains

/-- The controller with its brains; `grassQueue` lists the calls of `addGrassItemToQueue`, and
`straws` counts those of `addStrawItemToQueue`. -/
structure State where
  tick : ℤ
  inCropper : Option (List ℤ)
  brains : NetworkState WorldControlNode ℤ Load WorldControlSignal
  grassQueue : List String
  grassCache : Finset String
  straws : ℕ

def initial : State where
  tick := 0
  inCropper := none
  brains := .initial (-1) ⟨∅, ∅⟩
  grassQueue := []
  grassCache := ∅
  straws := 0

def query (maxLoad : ℕ) (i : WorldControlNode) (state : State) :
    Option WorldControlSignal × State :=
  let result := (worldControlNetwork maxLoad).getOutput state.inCropper state.tick i state.brains
  (result.1, { state with brains := result.2 })

/-- `if (brains.getOutGrassMowWorldControlSignal() != null) ...`. -/
def sendGrass (maxLoad : ℕ) (state : State) : State :=
  let mow := query maxLoad .outGrassMow state
  if mow.1.isSome then
    let again := query maxLoad .outGrassMow mow.2
    let items := (again.1.map WorldControlSignal.objects).getD []
    { again.2 with
      grassQueue := again.2.grassQueue ++ items
      grassCache := again.2.grassCache ∪ items.toFinset }
  else mow.2

/-- `if (brains.getOutStrawCreateWorldControlSignal() != null) ...`. -/
def sendStraw (maxLoad : ℕ) (state : State) : State :=
  let straw := query maxLoad .outStrawCreate state
  if straw.1.isSome then { straw.2 with straws := straw.2.straws + 1 } else straw.2

/-- `process`, as far as it concerns the grass. The argument is the data of the cropper, if new
data is ready. -/
def process (maxLoad : ℕ) (cropper : Option (List ℤ)) (state : State) : State :=
  let state := if cropper.isSome then { state with inCropper := cropper } else state
  let state := sendStraw maxLoad (sendGrass maxLoad state)
  { state with tick := state.tick + 1 }

/-- A run, given by the data of the cropper in each cycle. -/
def run (maxLoad : ℕ) (readings : List (Option (List ℤ))) : State :=
  readings.foldl (fun state cropper => process maxLoad cropper state) initial

/-- No behaviour has been queried in the current tick. -/
def State.Stale (state : State) : Prop := ∀ i, state.brains.previousRequestId i < state.tick

def ids (reading : Option (List ℤ)) : Finset ℤ := (reading.getD []).toFinset

/-- The load, what was cleared from it, and the straws. -/
def State.batches (state : State) : Batches ℤ :=
  ⟨state.brains.leaves.value, state.brains.leaves.counted, state.straws⟩

section Cycle

variable {maxLoad : ℕ} {state : State}

theorem mow_silent {data : Option (List ℤ)} (load : Load) (nothing : data.getD [] = []) :
    MowGrassBehavior.getOutputInternal data load = (none, load) := by
  rcases data with _ | fiducials
  · rfl
  · rw [Option.getD_some] at nothing
    rw [nothing]
    rfl

theorem mow_answers {data : Option (List ℤ)} (load : Load) (something : data.getD [] ≠ []) :
    MowGrassBehavior.getOutputInternal data load =
      (some ⟨.mowGrass, (data.getD []).map fun id => "grass" ++ toString id⟩,
        { load with value := load.value ∪ ids data }) := by
  rcases data with _ | fiducials
  · exact absurd rfl something
  · rw [Option.getD_some] at something
    exact if_neg (mt List.length_eq_zero_iff.mp something)

theorem query_first {output leaf : WorldControlNode}
    (node : (worldControlNetwork maxLoad).node output = .dummy leaf)
    (leafNode : (worldControlNetwork maxLoad).node leaf = .leaf)
    (outputStale : state.brains.previousRequestId output ≠ state.tick)
    (leafStale : state.brains.previousRequestId leaf ≠ state.tick) :
    let step := (worldControlNetwork maxLoad).internal leaf state.inCropper state.brains.leaves
    query maxLoad output state = (step.1, { state with
      brains := {
        cachedOutput := Function.update (Function.update state.brains.cachedOutput leaf step.1)
          output step.1
        previousRequestId := Function.update
          (Function.update state.brains.previousRequestId leaf state.tick) output state.tick
        leaves := step.2
        steps := Function.update state.brains.steps leaf (state.brains.steps leaf + 1) } }) := by
  rw [query, Network.getOutput_dummy node leafNode outputStale leafStale]

theorem query_again {output : WorldControlNode} {signal : WorldControlSignal}
    (same : state.brains.previousRequestId output = state.tick)
    (filled : state.brains.cachedOutput output = some signal) :
    query maxLoad output state = (some signal, state) := by
  rw [query, Network.getOutput_of_cached same filled]

structure GrassSent (state sent : State) : Prop where
  tick : sent.tick = state.tick
  inCropper : sent.inCropper = state.inCropper
  straws : sent.straws = state.straws
  leaves : sent.brains.leaves =
    { state.brains.leaves with value := state.brains.leaves.value ∪ ids state.inCropper }
  queue : sent.grassQueue =
    state.grassQueue ++ (state.inCropper.getD []).map fun id => "grass" ++ toString id
  requests : ∀ i, sent.brains.previousRequestId i =
    if i = .outGrassMow ∨ i = .behMowGrass then state.tick else state.brains.previousRequestId i

theorem sendGrass_spec (stale : state.Stale) : GrassSent state (sendGrass maxLoad state) := by
  have first : query maxLoad .outGrassMow state = _ :=
    query_first rfl rfl (stale .outGrassMow).ne (stale .behMowGrass).ne
  have requests : ∀ i, Function.update (Function.update state.brains.previousRequestId
      .behMowGrass state.tick) .outGrassMow state.tick i =
      if i = .outGrassMow ∨ i = .behMowGrass then state.tick
      else state.brains.previousRequestId i := by
    intro i
    cases i <;> rfl
  rw [sendGrass]
  by_cases nothing : state.inCropper.getD [] = []
  · have stepEq : (worldControlNetwork maxLoad).internal .behMowGrass state.inCropper
        state.brains.leaves = (none, state.brains.leaves) := mow_silent _ nothing
    rw [stepEq] at first
    rw [first]
    exact ⟨rfl, rfl, rfl, by simp [ids, nothing], by simp [nothing], requests⟩
  · have stepEq : (worldControlNetwork maxLoad).internal .behMowGrass state.inCropper
        state.brains.leaves = (some _, _) := mow_answers _ nothing
    rw [stepEq] at first
    rw [first]
    dsimp only [Option.isSome_some]
    rw [if_pos rfl, query_again rfl rfl]
    exact ⟨rfl, rfl, rfl, rfl, rfl, requests⟩

structure StrawSent (maxLoad : ℕ) (state sent : State) : Prop where
  tick : sent.tick = state.tick
  inCropper : sent.inCropper = state.inCropper
  batches : sent.batches = state.batches.add maxLoad ∅
  queue : sent.grassQueue = state.grassQueue
  requests : ∀ i, sent.brains.previousRequestId i =
    if i = .outStrawCreate ∨ i = .behCreateStraw then state.tick
    else state.brains.previousRequestId i

theorem sendStraw_spec (outputStale : state.brains.previousRequestId .outStrawCreate ≠ state.tick)
    (leafStale : state.brains.previousRequestId .behCreateStraw ≠ state.tick) :
    StrawSent maxLoad state (sendStraw maxLoad state) := by
  have first : query maxLoad .outStrawCreate state = _ :=
    query_first rfl rfl outputStale leafStale
  have requests : ∀ i, Function.update (Function.update state.brains.previousRequestId
      .behCreateStraw state.tick) .outStrawCreate state.tick i =
      if i = .outStrawCreate ∨ i = .behCreateStraw then state.tick
      else state.brains.previousRequestId i := by
    intro i
    cases i <;> rfl
  rw [sendStraw]
  by_cases full : maxLoad ≤ state.brains.leaves.value.card
  · have stepEq : (worldControlNetwork maxLoad).internal .behCreateStraw state.inCropper
        state.brains.leaves = (some _, _) := if_pos full
    rw [stepEq] at first
    rw [first]
    refine ⟨rfl, rfl, ?_, rfl, requests⟩
    simp [State.batches, Batches.add, full]
  · have stepEq : (worldControlNetwork maxLoad).internal .behCreateStraw state.inCropper
        state.brains.leaves = (none, _) := if_neg full
    rw [stepEq] at first
    rw [first]
    refine ⟨rfl, rfl, ?_, rfl, requests⟩
    simp [State.batches, Batches.add, full]

/-- The reading in force in a cycle. -/
def State.inForce (state : State) (cropper : Option (List ℤ)) : Option (List ℤ) :=
  if cropper.isSome then cropper else state.inCropper

structure Processed (maxLoad : ℕ) (cropper : Option (List ℤ)) (state next : State) : Prop where
  stale : next.Stale
  inCropper : next.inCropper = state.inForce cropper
  batches : next.batches = state.batches.add maxLoad (ids (state.inForce cropper))
  queue : next.grassQueue = state.grassQueue ++
    ((state.inForce cropper).getD []).map fun id => "grass" ++ toString id

theorem process_spec (cropper : Option (List ℤ)) (stale : state.Stale) :
    Processed maxLoad cropper state (process maxLoad cropper state) := by
  have receivedEq : (if cropper.isSome then { state with inCropper := cropper } else state) =
      { state with inCropper := state.inForce cropper } := by
    cases cropper <;> rfl
  rw [process, receivedEq]
  generalize receivedIs : { state with inCropper := state.inForce cropper } = received
  have receivedStale : received.Stale := by
    rw [← receivedIs]
    exact stale
  have grass : GrassSent received (sendGrass maxLoad received) := sendGrass_spec receivedStale
  have straw : StrawSent maxLoad (sendGrass maxLoad received)
      (sendStraw maxLoad (sendGrass maxLoad received)) :=
    sendStraw_spec
      (by rw [grass.requests, grass.tick]; exact (receivedStale .outStrawCreate).ne)
      (by rw [grass.requests, grass.tick]; exact (receivedStale .behCreateStraw).ne)
  refine ⟨fun i => ?_, ?_, ?_, ?_⟩
  · dsimp only
    have earlier := receivedStale i
    rw [straw.requests, grass.requests, straw.tick, grass.tick]
    split
    · exact lt_add_one _
    · split
      · exact lt_add_one _
      · exact earlier.trans (lt_add_one _)
  · rw [← receivedIs] at grass straw ⊢
    exact straw.inCropper.trans grass.inCropper
  · have sameBatches : (sendGrass maxLoad received).batches =
        ⟨received.batches.pending ∪ ids received.inCropper, received.batches.counted,
          received.batches.batches⟩ := by
      simp [State.batches, grass.leaves, grass.straws]
    have added : (Batches.mk (received.batches.pending ∪ ids received.inCropper)
        received.batches.counted received.batches.batches).add maxLoad ∅ =
        received.batches.add maxLoad (ids received.inCropper) := by
      simp [Batches.add]
    have batchesEq := straw.batches.trans ((congrArg (·.add maxLoad ∅) sameBatches).trans added)
    rw [← receivedIs] at batchesEq ⊢
    exact batchesEq
  · rw [← receivedIs] at grass straw ⊢
    exact straw.queue.trans grass.queue

end Cycle

def reported (readings : List (Option (List ℤ))) : Finset ℤ :=
  (readings.filterMap id).flatten.toFinset

section Runs

variable {maxLoad : ℕ}

theorem run_append_singleton (readings : List (Option (List ℤ))) (cropper : Option (List ℤ)) :
    run maxLoad (readings ++ [cropper]) = process maxLoad cropper (run maxLoad readings) := by
  rw [run, List.foldl_append]
  rfl

theorem initial_stale : initial.Stale := fun _ => show (-1 : ℤ) < 0 by decide

theorem run_stale (readings : List (Option (List ℤ))) : (run maxLoad readings).Stale := by
  induction readings using List.reverseRecOn with
  | nil => exact initial_stale
  | append_singleton readings cropper ih =>
      rw [run_append_singleton]
      exact (process_spec cropper ih).stale

theorem reported_append_singleton (readings : List (Option (List ℤ)))
    (cropper : Option (List ℤ)) :
    reported (readings ++ [cropper]) = reported readings ∪ ids cropper := by
  cases cropper <;> simp [reported, ids]

theorem ids_inForce_subset {readings : List (Option (List ℤ))} (cropper : Option (List ℤ))
    (known : ids (run maxLoad readings).inCropper ⊆ reported readings) :
    ids ((run maxLoad readings).inForce cropper) ⊆ reported (readings ++ [cropper]) := by
  rw [reported_append_singleton]
  cases cropper with
  | none => exact known.trans Finset.subset_union_left
  | some fiducials => exact Finset.subset_union_right

/-- No reading in force contains an id that an earlier straw has counted. -/
def CountedOnce (maxLoad : ℕ) (readings : List (Option (List ℤ))) : Prop :=
  ∀ before cropper after, readings = before ++ cropper :: after →
    Disjoint (ids ((run maxLoad before).inForce cropper))
      (run maxLoad before).brains.leaves.counted

theorem CountedOnce.append {readings more : List (Option (List ℤ))}
    (once : CountedOnce maxLoad (readings ++ more)) : CountedOnce maxLoad readings :=
  fun before cropper after split => once before cropper (after ++ more) (by simp [split])

theorem run_sound {readings : List (Option (List ℤ))} (once : CountedOnce maxLoad readings) :
    Batches.Sound maxLoad (reported readings) (run maxLoad readings).batches ∧
      ids (run maxLoad readings).inCropper ⊆ reported readings := by
  induction readings using List.reverseRecOn with
  | nil => exact ⟨Batches.sound_empty, Finset.empty_subset _⟩
  | append_singleton readings cropper ih =>
      rcases ih once.append with ⟨sound, known⟩
      have inForce := ids_inForce_subset cropper known
      have more : reported readings ⊆ reported (readings ++ [cropper]) := by
        rw [reported_append_singleton]
        exact Finset.subset_union_left
      have step : Processed maxLoad cropper (run maxLoad readings) _ :=
        process_spec cropper (run_stale readings)
      rw [run_append_singleton, step.batches, step.inCropper]
      exact ⟨(sound.mono more).add inForce (once readings cropper [] rfl), inForce⟩

end Runs

/-- In every state of a run in which no reading in force contains an id that an earlier straw
has counted, the straws are bounded by the reported ids, and no id in the load has been counted
towards a straw. -/
theorem straws_le_reported (maxLoad : ℕ) (readings : List (Option (List ℤ)))
    (once : CountedOnce maxLoad readings) (seen : List (Option (List ℤ)))
    (reached : seen <+: readings) :
    maxLoad * (run maxLoad seen).straws ≤ (reported seen).card ∧
      Disjoint (run maxLoad seen).brains.leaves.value (run maxLoad seen).brains.leaves.counted := by
  rcases reached with ⟨rest, rfl⟩
  have sound := (run_sound once.append).1
  exact ⟨sound.batches_le, sound.apart⟩

/-- A piece of grass is moved away before the load is cleared, and another one is cut. -/
theorem straws_le_reported_moved :
    1 * (run 1 [some [7], some [], some [8]]).straws ≤
      (reported [some [7], some [], some [8]]).card := by
  refine (straws_le_reported 1 [some [7], some [], some [8]] ?_ _ List.prefix_rfl).1
  intro before cropper after split
  rcases before with _ | ⟨first, _ | ⟨second, _ | ⟨third, rest⟩⟩⟩
  · obtain ⟨rfl, -⟩ := List.cons.inj split
    decide +kernel
  · simp only [List.cons_append, List.nil_append, List.cons.injEq] at split
    obtain ⟨rfl, rfl, -⟩ := split
    decide +kernel
  · simp only [List.cons_append, List.nil_append, List.cons.injEq] at split
    obtain ⟨rfl, rfl, rfl, -⟩ := split
    decide +kernel
  · simp at split

/-- Twenty ids stay in the cropper for a second cycle, which counts them again. -/
theorem straws_gt_reported :
    ¬∀ maxLoad > 0, ∀ readings,
      maxLoad * (run maxLoad readings).straws ≤ (reported readings).card := by
  intro bounded
  have stale := bounded 20 (by decide)
    [some [1, 2, 3, 4, 5, 6, 7, 8, 9, 10, 11, 12, 13, 14, 15, 16, 17, 18, 19, 20], none]
  revert stale
  decide +kernel

end RobotMowerCtrl

end MrsOptimization
