import MrsOptimization.Control.BehaviorNetwork
import Mathlib.Algebra.Field.Basic
import Mathlib.Algebra.Order.Field.Rat
import Mathlib.Data.Rat.Defs

/-!
# The position network of the mower

`RobotMowerBrains` subsumes wandering under following the grass, and both under
avoiding obstacles. The three behaviours are embedded as the code computes them;
doubles and floats are values of an ordered field. The random number that
wandering draws in a tick is one of the inputs of the tick.
-/

namespace MrsOptimization

structure PositionSignal (K : Type) where
  speed : K
  /-- `none` is no number. -/
  course : Option K
  deriving DecidableEq

/-- The three of the eight ranges that avoiding obstacles reads. -/
structure Ranger8Signal (K : Type) where
  front : K
  frontLeft : K
  frontRight : K

structure PlayerBlobfinderBlob (K : Type) where
  color : ℤ
  x : ℤ
  range : K

/-- `PlayerBlobfinderData`; the blob count is the length of the array. -/
structure PlayerBlobfinderData (K : Type) where
  width : ℤ
  blobs : List (PlayerBlobfinderBlob K)

variable {K : Type} [Field K] [LinearOrder K]

namespace AvoidObstaclesBehavior

def getOutputInternal (sideDist frontDist avoidSpeed avoidCourse : K)
    (rangerSignal : Option (Ranger8Signal K)) : Option (PositionSignal K) :=
  match rangerSignal with
  | none => none
  | some rangerSignal =>
      if rangerSignal.front < frontDist then
        if rangerSignal.frontRight < rangerSignal.frontLeft then
          some ⟨-avoidSpeed / (2 : ℕ), some avoidCourse⟩
        else some ⟨-avoidSpeed / (2 : ℕ), some (-avoidCourse)⟩
      else if rangerSignal.frontLeft < sideDist then some ⟨avoidSpeed, some (-avoidCourse)⟩
      else if rangerSignal.frontRight < sideDist then some ⟨avoidSpeed, some avoidCourse⟩
      else none

end AvoidObstaclesBehavior

namespace FollowBlobBehavior

def minBlob (blobs : List (PlayerBlobfinderBlob K)) : Option (PlayerBlobfinderBlob K) :=
  (blobs.foldl (fun (minBlob, minDist) blob =>
    if blob.color = 65280 ∧ blob.range < minDist then (some blob, blob.range)
    else (minBlob, minDist)) (none, ((2 ^ 31 : ℕ) : K))).1

/-- The course to a blob, for a positive `maxCourse`. In an image without width it is infinite
before it is cut, or no number. -/
def courseTo (maxCourse : K) (x width : ℤ) : Option K :=
  if width = 0 then
    if x = 0 then none else some (if 0 < x then maxCourse else -maxCourse)
  else
    let course := ((x : K) / ((width : K) / (2 : ℕ)) - 1) * maxCourse
    let course := max course (-maxCourse)
    some (min course maxCourse)

def getOutputInternal (maxSpeed maxCourse : K) (data : Option (PlayerBlobfinderData K)) :
    Option (PositionSignal K) :=
  match data with
  | none => none
  | some data =>
      if data.blobs.length = 0 then none
      else
        match minBlob data.blobs with
        | none => none
        | some blob => some ⟨maxSpeed, (courseTo maxCourse blob.x data.width).map (-·)⟩

end FollowBlobBehavior

namespace WanderBehavior

/-- The internal step changes the course at random. -/
def getOutputInternal (speed maxCourse courseDelta nextDouble course : K) :
    Option (PositionSignal K) × K :=
  let course := course + courseDelta * (nextDouble * (2 : ℕ) - 1)
  let course := max course (-maxCourse)
  let course := min course maxCourse
  (some ⟨speed, some course⟩, course)

end WanderBehavior

namespace RobotMowerBrains

/-- The behaviours that `getOutPositionSignal` can query. -/
inductive PositionNode where
  | outPosition
  | sub2
  | sub1
  | behAvoid
  | behFollowGrass
  | behWander
  deriving DecidableEq

/-- What a tick reads: the signals of the input nodes and a random number. -/
structure Inputs (K : Type) where
  inRanger : Option (Ranger8Signal K)
  inCamera : Option (PlayerBlobfinderData K)
  nextDouble : K

def avoidSignal (inputs : Inputs K) : Option (PositionSignal K) :=
  AvoidObstaclesBehavior.getOutputInternal (2 : ℕ) ((3 : ℕ) / (2 : ℕ)) 1 1 inputs.inRanger

def followSignal (inputs : Inputs K) : Option (PositionSignal K) :=
  FollowBlobBehavior.getOutputInternal (2 : ℕ) ((3 : ℕ) / (2 : ℕ)) inputs.inCamera

def wander (inputs : Inputs K) (course : K) : Option (PositionSignal K) × K :=
  WanderBehavior.getOutputInternal (4 : ℕ) 1 ((3 : ℕ) / (10 : ℕ)) inputs.nextDouble course

/-- The leaves of the network; only wandering has a state, its course. -/
def leaf : PositionNode → Leaf (Inputs K) K (PositionSignal K)
  | .behAvoid => ⟨fun inputs own => (avoidSignal inputs, own), fun _ _ _ => rfl⟩
  | .behFollowGrass => ⟨fun inputs own => (followSignal inputs, own), fun _ _ _ => rfl⟩
  | .behWander => ⟨wander, fun inputs own silent => by cases silent⟩
  | _ => ⟨fun _ own => (none, own), fun _ _ _ => rfl⟩

/-- The network that the constructor builds for the position output. -/
def positionNetwork : LeafNetwork PositionNode (Inputs K) K (PositionSignal K) where
  node
    | .outPosition => .dummy .sub2
    | .sub2 => .subsumption .sub1 .behAvoid
    | .sub1 => .subsumption .behWander .behFollowGrass
    | _ => .leaf
  leaf := leaf
  rank
    | .outPosition => 3
    | .sub2 => 2
    | .sub1 => 1
    | _ => 0
  acyclic := by
    intro i
    cases i <;> simp [Node.inputs]

/-- The position output that the network is meant to compute. -/
def positionSignal (inputs : Inputs K) (course : K) : Option (PositionSignal K) :=
  avoidSignal inputs <|> followSignal inputs <|> (wander inputs course).1

section Meaning

variable (inputs : Inputs K) (own : PositionNode → K)

theorem meaning_behAvoid :
    positionNetwork.meaning inputs own .behAvoid = avoidSignal inputs :=
  LeafNetwork.meaning_leaf rfl

theorem meaning_behFollowGrass :
    positionNetwork.meaning inputs own .behFollowGrass = followSignal inputs :=
  LeafNetwork.meaning_leaf rfl

theorem meaning_behWander :
    positionNetwork.meaning inputs own .behWander = (wander inputs (own .behWander)).1 :=
  LeafNetwork.meaning_leaf rfl

theorem meaning_outPosition :
    positionNetwork.meaning inputs own .outPosition = positionSignal inputs (own .behWander) := by
  have output : positionNetwork.meaning inputs own .outPosition =
      positionNetwork.meaning inputs own .sub2 := LeafNetwork.meaning_dummy rfl
  have sub2 : positionNetwork.meaning inputs own .sub2 =
      if (positionNetwork.meaning inputs own .behAvoid).isSome then
        positionNetwork.meaning inputs own .behAvoid
      else positionNetwork.meaning inputs own .sub1 := LeafNetwork.meaning_subsumption rfl
  have sub1 : positionNetwork.meaning inputs own .sub1 =
      if (positionNetwork.meaning inputs own .behFollowGrass).isSome then
        positionNetwork.meaning inputs own .behFollowGrass
      else positionNetwork.meaning inputs own .behWander := LeafNetwork.meaning_subsumption rfl
  rw [output, sub2, sub1, meaning_behAvoid, meaning_behFollowGrass, meaning_behWander,
    positionSignal]
  cases avoidSignal inputs with
  | some signal => rfl
  | none =>
      cases followSignal inputs with
      | some signal => rfl
      | none => rfl

theorem positionSignal_isSome (course : K) : (positionSignal inputs course).isSome := by
  rw [positionSignal]
  cases avoidSignal inputs with
  | some signal => rfl
  | none =>
      cases followSignal inputs with
      | some signal => rfl
      | none => rfl

variable {inputs own}

theorem not_demands_of_leaf {i : PositionNode}
    (leaf : (positionNetwork : LeafNetwork PositionNode (Inputs K) K _).node i = .leaf)
    (different : i ≠ .behWander) : ¬positionNetwork.Demands inputs own i .behWander := by
  intro demanded
  cases demanded with
  | self => exact different rfl
  | master node _ => simp [leaf] at node
  | slave node _ _ => simp [leaf] at node
  | input node _ => simp [leaf] at node

theorem silent_of_demands_sub1
    (demanded : positionNetwork.Demands inputs own .sub1 .behWander) :
    followSignal inputs = none := by
  cases demanded with
  | master node rest =>
      simp only [positionNetwork, Node.subsumption.injEq, reduceCtorEq, or_false] at node
      rw [← node.2] at rest
      exact absurd rest (not_demands_of_leaf rfl (by decide))
  | slave node silent rest =>
      simp only [positionNetwork, Node.subsumption.injEq, reduceCtorEq, or_false] at node
      rwa [← node.2, meaning_behFollowGrass] at silent
  | input node rest => simp [positionNetwork] at node

theorem silent_of_demands_sub2
    (demanded : positionNetwork.Demands inputs own .sub2 .behWander) :
    avoidSignal inputs = none ∧ followSignal inputs = none := by
  cases demanded with
  | master node rest =>
      simp only [positionNetwork, Node.subsumption.injEq, reduceCtorEq, or_false] at node
      rw [← node.2] at rest
      exact absurd rest (not_demands_of_leaf rfl (by decide))
  | slave node silent rest =>
      simp only [positionNetwork, Node.subsumption.injEq, reduceCtorEq, or_false] at node
      rw [← node.2, meaning_behAvoid] at silent
      rw [← node.1] at rest
      exact ⟨silent, silent_of_demands_sub1 rest⟩
  | input node rest => simp [positionNetwork] at node

theorem silent_of_demands
    (demanded : positionNetwork.Demands inputs own .outPosition .behWander) :
    avoidSignal inputs = none ∧ followSignal inputs = none := by
  cases demanded with
  | master node rest => simp [positionNetwork] at node
  | slave node silent rest => simp [positionNetwork] at node
  | input node rest =>
      simp only [positionNetwork, Node.dummy.injEq] at node
      rw [← node] at rest
      exact silent_of_demands_sub2 rest

end Meaning

theorem position_tick {ρ : Type} [DecidableEq ρ] (initialId : ρ)
    {before after : List (Tick PositionNode ρ (Inputs K))} {tick : Tick PositionNode ρ (Inputs K)}
    (distinct : ((before ++ tick :: after).map Tick.requestId).Nodup)
    (positionOnly : ∀ i ∈ tick.queries, i = .outPosition) :
    let start := positionNetwork.toNetwork.run before (.initial initialId fun _ => 0)
    let result :=
      positionNetwork.toNetwork.getOutputs tick.inputs tick.requestId tick.queries start
    (∀ output ∈ result.1, output = positionSignal tick.inputs (start.leaves .behWander) ∧
      output.isSome) ∧
    ((avoidSignal tick.inputs).isSome ∨ (followSignal tick.inputs).isSome →
      result.2.leaves .behWander = start.leaves .behWander) := by
  intro start result
  rcases run_tick positionNetwork initialId (fun _ => 0) distinct with ⟨values, -, frame⟩
  refine ⟨fun output outputMem => ?_, fun master => frame .behWander fun i iMem demanded => ?_⟩
  · rw [values, List.mem_map] at outputMem
    rcases outputMem with ⟨i, iMem, rfl⟩
    rw [positionOnly i iMem, meaning_outPosition]
    exact ⟨rfl, positionSignal_isSome _ _⟩
  · rw [positionOnly i iMem] at demanded
    rcases silent_of_demands demanded with ⟨avoidSilent, followSilent⟩
    rw [avoidSilent, followSilent] at master
    simp at master

end RobotMowerBrains

/-- In every tick of every run, each query of a network of cached behaviours returns the
structural meaning of its node, and a leaf that answers takes its internal step at most once;
in particular the position output of the brains is the first signal that is present among
avoiding, following and wandering, and the wander course changes only when both masters are
silent. -/
theorem cachedBehaviors_answer_meaning {ι ρ Inputs τ Signal : Type} [DecidableEq ι]
    [DecidableEq ρ] (net : LeafNetwork ι Inputs τ Signal) (initialId : ρ) (leaves : ι → τ)
    (before after : List (Tick ι ρ Inputs)) (tick : Tick ι ρ Inputs)
    (distinct : ((before ++ tick :: after).map Tick.requestId).Nodup) :
    (let start := net.toNetwork.run before (.initial initialId leaves)
      let result := net.toNetwork.getOutputs tick.inputs tick.requestId tick.queries start
      result.1 = tick.queries.map (net.meaning tick.inputs start.leaves) ∧
      ∀ i, (net.meaning tick.inputs start.leaves i).isSome →
        result.2.steps i ≤ start.steps i + 1) ∧
    ∀ (K : Type) [Field K] [LinearOrder K]
      (before after : List (Tick RobotMowerBrains.PositionNode ρ (RobotMowerBrains.Inputs K)))
      (tick : Tick RobotMowerBrains.PositionNode ρ (RobotMowerBrains.Inputs K)),
      ((before ++ tick :: after).map Tick.requestId).Nodup →
      (∀ i ∈ tick.queries, i = .outPosition) →
      let network := RobotMowerBrains.positionNetwork.toNetwork
      let start := network.run before (.initial initialId fun _ => (0 : K))
      let result := network.getOutputs tick.inputs tick.requestId tick.queries start
      (∀ output ∈ result.1,
        output = RobotMowerBrains.positionSignal tick.inputs (start.leaves .behWander) ∧
          output.isSome) ∧
      ((RobotMowerBrains.avoidSignal tick.inputs).isSome ∨
          (RobotMowerBrains.followSignal tick.inputs).isSome →
        result.2.leaves .behWander = start.leaves .behWander) := by
  rcases run_tick net initialId leaves distinct with ⟨values, once, -⟩
  exact ⟨⟨values, once⟩, fun K _ _ before after tick distinct positionOnly =>
    RobotMowerBrains.position_tick initialId distinct positionOnly⟩

/-- An obstacle in the second tick. -/
theorem cachedBehaviors_answer_meaning_obstacle :
    let network := (RobotMowerBrains.positionNetwork (K := ℚ)).toNetwork
    let start := network.run [⟨0, ⟨some ⟨5, 5, 5⟩, none, 1 / 2⟩, [.outPosition, .sub1]⟩]
      (.initial (-1 : ℤ) fun _ => 0)
    (network.getOutputs ⟨some ⟨1, 2, 5⟩, none, 3 / 4⟩ 1
      [.outPosition, .behAvoid, .behFollowGrass, .outPosition] start).1 =
      [some ⟨-1 / 2, some (-1)⟩, some ⟨-1 / 2, some (-1)⟩, none, some ⟨-1 / 2, some (-1)⟩] := by
  intro network start
  have meanings := (cachedBehaviors_answer_meaning
    (RobotMowerBrains.positionNetwork (K := ℚ)) (-1 : ℤ) (fun _ => 0)
    [⟨0, ⟨some ⟨5, 5, 5⟩, none, 1 / 2⟩, [.outPosition, .sub1]⟩] []
    ⟨1, ⟨some ⟨1, 2, 5⟩, none, 3 / 4⟩, [.outPosition, .behAvoid, .behFollowGrass, .outPosition]⟩
    (by decide)).1.1
  have avoid : RobotMowerBrains.avoidSignal (K := ℚ) ⟨some ⟨1, 2, 5⟩, none, 3 / 4⟩ =
      some ⟨-1 / 2, some (-1)⟩ := by decide +kernel
  refine meanings.trans ?_
  simp only [List.map_cons, List.map_nil, RobotMowerBrains.meaning_outPosition,
    RobotMowerBrains.meaning_behAvoid, RobotMowerBrains.meaning_behFollowGrass,
    RobotMowerBrains.positionSignal, avoid]
  rfl

end MrsOptimization
