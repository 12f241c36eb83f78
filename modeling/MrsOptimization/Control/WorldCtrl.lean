import MrsOptimization.Library.EventRuns
import Mathlib.Data.List.Infix
import Mathlib.Data.List.Nodup
import Mathlib.Logic.Function.Basic

/-!
# Straw requests of several robots

Robots hand their requests to the world through a queue. A request takes a name
from a pool and then joins the queue, in two operations that those of other
threads may come between; the world's own thread empties the queues in its
cycles. The pool has a hundred names and is never filled up again, and asking it
for a name does not wait: up to a hundred requests all is well
(`run_delivers`), and the next one goes without a name. `set2DPose` throws when it
gets there, which ends the thread of the world.
-/

namespace MrsOptimization

/-- `StageObject`; its number is that of the request, and no code reads it. -/
structure StageObject (Pose : Type) where
  request : ℕ
  name : Option String
  pose : Pose
  deriving DecidableEq

namespace WorldCtrl

/-- Where the thread of the world is: between two cycles, at the condition of a loop, before
`poll`, or before `set2DPose`. A `NullPointerException` has ended it when it had polled the
object, if there was one. -/
inductive Phase (Pose : Type) where
  | idle
  | mowGrass
  | pollGrass
  | setGrass (item : Option String)
  | showStraw
  | pollStraw
  | setStraw (obj : Option (StageObject Pose))
  | ended (obj : Option (StageObject Pose))
  deriving DecidableEq

/-- The queues, what the robots hold between `poll` and `put`, and what was sent to the
simulation. The number of requests and the list of all objects ever queued are for no code to
read. -/
structure State (ρ Pose : Type) where
  grassQueue : List String
  strawQueue : List (StageObject Pose)
  strawPool : List String
  pending : ρ → Option (StageObject Pose)
  phase : Phase Pose
  mowed : List String
  sent : List (StageObject Pose)
  requests : ℕ
  queued : List (StageObject Pose)

/-- An operation of a robot's thread, or the next one of the world's. In `addStrawItemToQueue`,
`put` throws when the thread has been interrupted. -/
inductive Event (ρ Pose : Type) where
  | pollName (robot : ρ) (pose : Pose)
  | putStraw (robot : ρ)
  | interrupt (robot : ρ)
  | putGrass (item : String)
  | world

def Event.isRequest {ρ Pose : Type} : Event ρ Pose → Bool
  | .pollName _ _ => true
  | _ => false

section Code

variable {ρ Pose : Type} [DecidableEq ρ]

/-- The names that the constructor puts into the pool. -/
def straws : List String := (List.range 100).map fun i => "straw" ++ toString (i + 1)

def initial : State ρ Pose where
  grassQueue := []
  strawQueue := []
  strawPool := straws
  pending := fun _ => none
  phase := .idle
  mowed := []
  sent := []
  requests := 0
  queued := []

/-- `process`, one operation at a time. `set2DPose` takes the length of the name. -/
def process (state : State ρ Pose) : Option (State ρ Pose) :=
  match state.phase with
  | .idle => some { state with phase := .mowGrass }
  | .mowGrass =>
      if state.grassQueue.isEmpty then some { state with phase := .showStraw }
      else some { state with phase := .pollGrass }
  | .pollGrass =>
      some { state with
        phase := .setGrass state.grassQueue.head?
        grassQueue := state.grassQueue.tail }
  | .setGrass none => some { state with phase := .ended none }
  | .setGrass (some item) =>
      some { state with phase := .mowGrass, mowed := state.mowed ++ [item] }
  | .showStraw =>
      if state.strawQueue.isEmpty then some { state with phase := .idle }
      else some { state with phase := .pollStraw }
  | .pollStraw =>
      some { state with
        phase := .setStraw state.strawQueue.head?
        strawQueue := state.strawQueue.tail }
  | .setStraw none => some { state with phase := .ended none }
  | .setStraw (some obj) =>
      if obj.name = none then some { state with phase := .ended (some obj) }
      else some { state with phase := .showStraw, sent := state.sent ++ [obj] }
  | .ended _ => none

/-- The operations of `addStrawItemToQueue` and `addGrassItemToQueue`, and those of the world. A
thread is in one call at a time. -/
def step : Event ρ Pose → State ρ Pose → Option (State ρ Pose)
  | .pollName robot pose, state =>
      match state.pending robot with
      | some _ => none
      | none =>
          some { state with
            strawPool := state.strawPool.tail
            pending := Function.update state.pending robot
              (some ⟨state.requests, state.strawPool.head?, pose⟩)
            requests := state.requests + 1 }
  | .putStraw robot, state =>
      match state.pending robot with
      | none => none
      | some obj =>
          some { state with
            strawQueue := state.strawQueue ++ [obj]
            pending := Function.update state.pending robot none
            queued := state.queued ++ [obj] }
  | .interrupt robot, state =>
      match state.pending robot with
      | none => none
      | some _ => some { state with pending := Function.update state.pending robot none }
  | .putGrass item, state => some { state with grassQueue := state.grassQueue ++ [item] }
  | .world, state => process state

def run (events : List (Event ρ Pose)) : Option (State ρ Pose) :=
  runEvents step events initial

end Code

section Flow

variable {ρ Pose : Type} {state next : State ρ Pose}

/-- The object behind `poll` that has not been sent. -/
def Phase.inTransit : Phase Pose → List (StageObject Pose)
  | .setStraw (some obj) => [obj]
  | .ended (some obj) => [obj]
  | _ => []

/-- What is known where the thread of the world is: a queue that it polls has something for it,
and only an object without a name ends it. -/
def State.Busy (state : State ρ Pose) : Prop :=
  match state.phase with
  | .pollGrass => state.grassQueue ≠ []
  | .setGrass item => item ≠ none
  | .pollStraw => state.strawQueue ≠ []
  | .setStraw obj => obj ≠ none
  | .ended obj => ∃ lost, obj = some lost ∧ lost.name = none
  | _ => True

/-- An object that was queued is sent, on its way or still in the queue. -/
structure Flow (state : State ρ Pose) : Prop where
  conserved : state.sent ++ state.phase.inTransit ++ state.strawQueue = state.queued
  busy : state.Busy

/-- Queues that do not get empty. -/
theorem State.Busy.of_queues (busy : state.Busy) (phase : next.phase = state.phase)
    (grass : state.grassQueue ≠ [] → next.grassQueue ≠ [])
    (straw : state.strawQueue ≠ [] → next.strawQueue ≠ []) : next.Busy := by
  rw [State.Busy] at busy ⊢
  rw [phase]
  cases here : state.phase with
  | pollGrass =>
      rw [here] at busy
      exact grass busy
  | pollStraw =>
      rw [here] at busy
      exact straw busy
  | _ =>
      rw [here] at busy
      exact busy

/-- What the thread of the world leaves alone, and how far it has come. -/
structure Processed (state next : State ρ Pose) : Prop where
  strawPool : next.strawPool = state.strawPool
  pending : next.pending = state.pending
  requests : next.requests = state.requests
  queued : next.queued = state.queued
  sent : state.sent <+: next.sent
  finished : next.phase = .idle → next.strawQueue = []

theorem process_spec (flow : Flow state) (run : process state = some next) :
    Processed state next ∧ Flow next := by
  rw [process] at run
  rcases flow with ⟨conserved, busy⟩
  rw [State.Busy] at busy
  cases phase : state.phase with
  | idle =>
      simp only [phase, Option.some.injEq] at run conserved
      subst run
      exact ⟨⟨rfl, rfl, rfl, rfl, List.prefix_refl _, by simp⟩, conserved, trivial⟩
  | mowGrass =>
      simp only [phase] at run conserved
      split at run <;> cases run
      · exact ⟨⟨rfl, rfl, rfl, rfl, List.prefix_refl _, by simp⟩, conserved, trivial⟩
      · rename_i filled
        exact ⟨⟨rfl, rfl, rfl, rfl, List.prefix_refl _, by simp⟩, conserved, by
          simpa [State.Busy] using filled⟩
  | pollGrass =>
      simp only [phase, Option.some.injEq] at run conserved busy
      subst run
      rcases List.exists_cons_of_ne_nil busy with ⟨item, rest, queue⟩
      exact ⟨⟨rfl, rfl, rfl, rfl, List.prefix_refl _, by simp⟩, conserved, by
        simp [State.Busy, queue]⟩
  | setGrass item =>
      simp only [phase] at run conserved busy
      rcases Option.ne_none_iff_exists'.mp busy with ⟨name, rfl⟩
      cases run
      exact ⟨⟨rfl, rfl, rfl, rfl, List.prefix_refl _, by simp⟩, conserved, trivial⟩
  | showStraw =>
      simp only [phase] at run conserved
      split at run <;> cases run
      · rename_i empty
        exact ⟨⟨rfl, rfl, rfl, rfl, List.prefix_refl _, fun _ => by simpa using empty⟩,
          conserved, trivial⟩
      · rename_i filled
        exact ⟨⟨rfl, rfl, rfl, rfl, List.prefix_refl _, by simp⟩, conserved, by
          simpa [State.Busy] using filled⟩
  | pollStraw =>
      simp only [phase, Option.some.injEq] at run conserved busy
      subst run
      rcases List.exists_cons_of_ne_nil busy with ⟨obj, rest, queue⟩
      refine ⟨⟨rfl, rfl, rfl, rfl, List.prefix_refl _, by simp⟩, ?_, by simp [State.Busy, queue]⟩
      rw [← conserved]
      simp [queue, Phase.inTransit]
  | setStraw obj =>
      simp only [phase] at run conserved busy
      rcases Option.ne_none_iff_exists'.mp busy with ⟨obj, rfl⟩
      simp only at run
      split at run <;> cases run
      · next nameless =>
          exact ⟨⟨rfl, rfl, rfl, rfl, List.prefix_refl _, by simp⟩, conserved,
            obj, rfl, nameless⟩
      · refine ⟨⟨rfl, rfl, rfl, rfl, List.prefix_append _ _, by simp⟩, ?_, trivial⟩
        rw [← conserved]
        simp [Phase.inTransit]
  | ended obj =>
      simp only [phase] at run
      cases run

variable [DecidableEq ρ] {event : Event ρ Pose}

/-- What any operation does to the requests that were queued and sent. -/
structure Grown (state next : State ρ Pose) : Prop where
  flow : Flow next
  queued : state.queued <+: next.queued
  sent : state.sent <+: next.sent
  idle : next.phase = .idle → state.phase = .idle ∨ next.sent = next.queued

theorem step_grown (flow : Flow state) (run : step event state = some next) :
    Grown state next := by
  cases event with
  | pollName robot pose =>
      rw [step] at run
      split at run <;> cases run
      exact ⟨⟨flow.conserved, flow.busy⟩, List.prefix_refl _, List.prefix_refl _, Or.inl⟩
  | putStraw robot =>
      rw [step] at run
      split at run <;> cases run
      rename_i obj _
      refine ⟨⟨?_, flow.busy.of_queues rfl id fun _ => by simp⟩, List.prefix_append _ _,
        List.prefix_refl _, Or.inl⟩
      rw [← flow.conserved]
      simp
  | interrupt robot =>
      rw [step] at run
      split at run <;> cases run
      exact ⟨⟨flow.conserved, flow.busy⟩, List.prefix_refl _, List.prefix_refl _, Or.inl⟩
  | putGrass item =>
      cases run
      exact ⟨⟨flow.conserved, flow.busy.of_queues rfl (fun _ => by simp) id⟩,
        List.prefix_refl _, List.prefix_refl _, Or.inl⟩
  | world =>
      rcases process_spec flow run with ⟨processed, nextFlow⟩
      refine ⟨nextFlow, processed.queued ▸ List.prefix_refl _, processed.sent, fun idle => ?_⟩
      right
      have conserved := nextFlow.conserved
      rw [processed.finished idle, idle] at conserved
      simpa [Phase.inTransit] using conserved

end Flow

section Names

variable {ρ Pose : Type} {state next : State ρ Pose}

/-- A robot or the world has got hold of the object. -/
def State.Holds (state : State ρ Pose) (obj : StageObject Pose) : Prop :=
  obj ∈ state.queued ∨ ∃ robot, state.pending robot = some obj

/-- Requests have different numbers, and their names follow from these. -/
structure Numbered (state : State ρ Pose) : Prop where
  pool : state.strawPool = straws.drop state.requests
  below : ∀ obj, state.Holds obj → obj.request < state.requests
  name : ∀ obj, state.Holds obj → obj.name = straws[obj.request]?
  queued : (state.queued.map StageObject.request).Nodup
  fresh : ∀ robot obj, state.pending robot = some obj →
    obj.request ∉ state.queued.map StageObject.request
  apart : ∀ robot other obj obj', state.pending robot = some obj →
    state.pending other = some obj' → obj.request = obj'.request → robot = other

theorem Numbered.congr (numbered : Numbered state) (pool : next.strawPool = state.strawPool)
    (pending : next.pending = state.pending) (requests : next.requests = state.requests)
    (queued : next.queued = state.queued) : Numbered next := by
  rcases numbered with ⟨poolEq, below, name, nodup, fresh, apart⟩
  constructor
  · rw [pool, requests, poolEq]
  · simpa only [State.Holds, pending, requests, queued] using below
  · simpa only [State.Holds, pending, queued] using name
  · rwa [queued]
  · rwa [pending, queued]
  · rwa [pending]

variable [DecidableEq ρ]

theorem held_update {pending : ρ → Option (StageObject Pose)} {robot other : ρ}
    {held : Option (StageObject Pose)} {obj : StageObject Pose}
    (found : Function.update pending robot held other = some obj) :
    (other = robot ∧ held = some obj) ∨ (other ≠ robot ∧ pending other = some obj) := by
  by_cases same : other = robot
  · subst same
    rw [Function.update_self] at found
    exact Or.inl ⟨rfl, found⟩
  · rw [Function.update_of_ne same] at found
    exact Or.inr ⟨same, found⟩

theorem Numbered.pollName (numbered : Numbered state) {robot : ρ} {pose : Pose}
    (run : step (.pollName robot pose) state = some next) : Numbered next := by
  rw [step] at run
  split at run <;> cases run
  rcases numbered with ⟨pool, below, name, nodup, fresh, apart⟩
  constructor
  · simp [pool]
  · rintro obj (queued | ⟨other, found⟩)
    · exact (below obj (Or.inl queued)).trans (Nat.lt_succ_self _)
    · rcases held_update found with ⟨-, new⟩ | ⟨-, old⟩
      · cases new
        exact Nat.lt_succ_self _
      · exact (below obj (Or.inr ⟨other, old⟩)).trans (Nat.lt_succ_self _)
  · rintro obj (queued | ⟨other, found⟩)
    · exact name obj (Or.inl queued)
    · rcases held_update found with ⟨-, new⟩ | ⟨-, old⟩
      · cases new
        simp [pool]
      · exact name obj (Or.inr ⟨other, old⟩)
  · exact nodup
  · intro other obj found
    rcases held_update found with ⟨-, new⟩ | ⟨-, old⟩
    · cases new
      intro queued
      rcases List.mem_map.mp queued with ⟨older, olderMem, same⟩
      exact (below older (Or.inl olderMem)).ne same
    · exact fresh other obj old
  · intro first second obj obj' firstFound secondFound same
    rcases held_update firstFound with ⟨firstEq, new⟩ | ⟨-, old⟩ <;>
      rcases held_update secondFound with ⟨secondEq, new'⟩ | ⟨-, old'⟩
    · rw [firstEq, secondEq]
    · cases new
      exact absurd same.symm (below obj' (Or.inr ⟨second, old'⟩)).ne
    · cases new'
      exact absurd same (below obj (Or.inr ⟨first, old⟩)).ne
    · exact apart first second obj obj' old old' same

/-- A robot that is done with its request holds nothing. -/
theorem Numbered.release (numbered : Numbered state) (robot : ρ) :
    Numbered { state with pending := Function.update state.pending robot none } := by
  rcases numbered with ⟨pool, below, name, nodup, fresh, apart⟩
  have old : ∀ {other : ρ} {obj : StageObject Pose},
      Function.update state.pending robot none other = some obj →
        state.pending other = some obj := by
    intro other obj found
    rcases held_update found with ⟨-, none⟩ | ⟨-, old⟩
    · cases none
    · exact old
  have holds : ∀ obj, State.Holds { state with
      pending := Function.update state.pending robot none } obj → state.Holds obj :=
    fun obj => Or.imp_right fun ⟨other, found⟩ => ⟨other, old found⟩
  exact ⟨pool, fun obj held => below obj (holds obj held),
    fun obj held => name obj (holds obj held), nodup,
    fun other obj found => fresh other obj (old found),
    fun first second obj obj' found found' => apart first second obj obj' (old found) (old found')⟩

theorem Numbered.putStraw (numbered : Numbered state) {robot : ρ}
    (run : step (.putStraw robot) state = some next) : Numbered next := by
  rw [step] at run
  split at run <;> cases run
  rename_i obj held
  have released := numbered.release robot
  have objFresh := numbered.fresh robot obj held
  have objHeld : state.Holds obj := Or.inr ⟨robot, held⟩
  constructor
  · exact numbered.pool
  · rintro other (queued | pending)
    · rcases List.mem_append.mp queued with old | new
      · exact numbered.below other (Or.inl old)
      · rw [List.mem_singleton.mp new]
        exact numbered.below obj objHeld
    · exact released.below other (Or.inr pending)
  · rintro other (queued | pending)
    · rcases List.mem_append.mp queued with old | new
      · exact numbered.name other (Or.inl old)
      · rw [List.mem_singleton.mp new]
        exact numbered.name obj objHeld
    · exact released.name other (Or.inr pending)
  · simpa [List.nodup_append, numbered.queued] using objFresh
  · intro other obj' found queued
    rw [List.map_append, List.mem_append] at queued
    rcases queued with old | new
    · exact released.fresh other obj' found old
    · rcases held_update found with ⟨-, none⟩ | ⟨different, old⟩
      · cases none
      · exact different (numbered.apart other robot obj' obj old held (by simpa using new))
  · exact released.apart

theorem step_numbered {event : Event ρ Pose} (flow : Flow state) (numbered : Numbered state)
    (run : step event state = some next) :
    Numbered next ∧ next.requests = state.requests + if event.isRequest then 1 else 0 := by
  cases event with
  | pollName robot pose =>
      refine ⟨numbered.pollName run, ?_⟩
      rw [step] at run
      split at run <;> cases run
      rfl
  | putStraw robot =>
      refine ⟨numbered.putStraw run, ?_⟩
      rw [step] at run
      split at run <;> cases run
      rfl
  | interrupt robot =>
      rw [step] at run
      split at run <;> cases run
      exact ⟨numbered.release robot, rfl⟩
  | putGrass item =>
      cases run
      exact ⟨numbered.congr rfl rfl rfl rfl, rfl⟩
  | world =>
      rcases process_spec flow run with ⟨processed, -⟩
      exact ⟨numbered.congr processed.strawPool processed.pending processed.requests
        processed.queued, processed.requests⟩

end Names

section Runs

variable {ρ Pose : Type} [DecidableEq ρ] {events : List (Event ρ Pose)} {state final : State ρ Pose}

omit [DecidableEq ρ] in
theorem flow_initial : Flow (initial : State ρ Pose) :=
  ⟨rfl, trivial⟩

omit [DecidableEq ρ] in
theorem numbered_initial : Numbered (initial : State ρ Pose) := by
  constructor <;> simp [initial, State.Holds]

theorem runEvents_flow (flow : Flow state) (run : runEvents step events state = some final) :
    Flow final :=
  runEvents_invariant Flow (fun _ _ _ flow run => (step_grown flow run).flow) flow run

theorem runEvents_queued (flow : Flow state) (run : runEvents step events state = some final) :
    state.queued <+: final.queued := by
  have invariant := runEvents_invariant
    (fun reached => Flow reached ∧ state.queued <+: reached.queued)
    (fun _ _ _ reached run => ⟨(step_grown reached.1 run).flow,
      reached.2.trans (step_grown reached.1 run).queued⟩)
    ⟨flow, List.prefix_refl _⟩ run
  exact invariant.2

theorem runEvents_numbered (flow : Flow state) (numbered : Numbered state)
    (run : runEvents step events state = some final) :
    Numbered final ∧ final.requests = state.requests + events.countP Event.isRequest := by
  induction events generalizing state with
  | nil =>
      cases run
      exact ⟨numbered, rfl⟩
  | cons event rest ih =>
      rcases Option.bind_eq_some_iff.mp run with ⟨next, stepped, later⟩
      rcases step_numbered flow numbered stepped with ⟨nextNumbered, requests⟩
      rcases ih (step_grown flow stepped).flow nextNumbered later with ⟨finalNumbered, total⟩
      refine ⟨finalNumbered, ?_⟩
      rw [total, requests, List.countP_cons]
      omega

/-- Once the world has been through a cycle, what was queued at the beginning is sent. -/
theorem runEvents_cycle {before : List (StageObject Pose)} (flow : Flow state)
    (queued : before <+: state.queued) (started : state.phase ≠ .idle)
    (run : runEvents step events state = some final) (ended : final.phase = .idle) :
    before <+: final.sent := by
  have invariant := runEvents_invariant
    (fun reached => Flow reached ∧ before <+: reached.queued ∧
      (reached.phase = .idle → before <+: reached.sent)) ?_
    ⟨flow, queued, fun idle => absurd idle started⟩ run
  · exact invariant.2.2 ended
  · rintro event reached next ⟨reachedFlow, reachedQueued, sent⟩ stepped
    have grown := step_grown reachedFlow stepped
    refine ⟨grown.flow, reachedQueued.trans grown.queued, fun idle => ?_⟩
    rcases grown.idle idle with already | all
    · exact (sent already).trans grown.sent
    · rw [all]
      exact reachedQueued.trans grown.queued

/-- A cycle has come to its end, in one way or the other. -/
def Phase.Over : Phase Pose → Prop
  | .idle => True
  | .ended _ => True
  | _ => False

/-- What is promised of a run: each request is queued and sent at most once, in the order of the
queue, to whose end alone it is added; a cycle sends all that was queued before it; and requests
have names, all different. -/
structure Delivers (events : List (Event ρ Pose)) (final : State ρ Pose) : Prop where
  once : (final.queued.map StageObject.request).Nodup
  inOrder : final.sent <+: final.queued
  appended : ∀ first rest before, events = first ++ rest → WorldCtrl.run first = some before →
    before.queued <+: final.queued
  byEndOfCycle : ∀ first rest before, events = first ++ .world :: rest →
    WorldCtrl.run first = some before → before.phase = .idle → final.phase.Over →
      before.queued <+: final.sent
  named : ∀ obj, final.Holds obj → obj.name ≠ none
  distinct : ∀ obj other, final.Holds obj → final.Holds other → obj.name = other.name → obj = other

/-- The digits of a number tell which number it is. -/
theorem toString_injective : Function.Injective (toString : ℕ → String) := by
  intro m n same
  have digits := congrArg (fun text => Nat.ofDigitChars 10 text.toList 0) same
  simpa using digits

theorem straws_nodup : straws.Nodup := by
  apply List.nodup_range.map
  intro i j same
  have number : i + 1 = j + 1 := toString_injective (by simpa using same)
  exact Nat.succ_injective number

omit [DecidableEq ρ] in
theorem Numbered.eq_of_request (numbered : Numbered state) {obj other : StageObject Pose}
    (objHeld : state.Holds obj) (otherHeld : state.Holds other)
    (same : obj.request = other.request) : obj = other := by
  rcases objHeld with queued | ⟨robot, held⟩ <;> rcases otherHeld with queued' | ⟨robot', held'⟩
  · exact List.inj_on_of_nodup_map numbered.queued queued queued' same
  · exact absurd (List.mem_map.mpr ⟨obj, queued, same⟩) (numbered.fresh robot' other held')
  · exact absurd (List.mem_map.mpr ⟨other, queued', same.symm⟩) (numbered.fresh robot obj held)
  · rw [numbered.apart robot robot' obj other held held' same] at held
    exact Option.some.inj (held.symm.trans held')

omit [DecidableEq ρ] in
/-- Names for all requests keep the world going. -/
theorem Flow.idle_of_named (flow : Flow state) (named : ∀ obj, state.Holds obj → obj.name ≠ none)
    (finished : state.phase.Over) : state.phase = .idle := by
  have conserved := flow.conserved
  have busy := flow.busy
  rw [State.Busy] at busy
  cases phase : state.phase with
  | idle => rfl
  | ended obj =>
      rw [phase] at busy conserved
      rcases busy with ⟨lost, rfl, nameless⟩
      have queued : lost ∈ state.queued := by
        rw [← conserved]
        simp [Phase.inTransit]
      exact absurd nameless (named lost (Or.inl queued))
  | _ =>
      rw [phase] at finished
      exact finished.elim

/-- A run with at most a hundred straw requests. -/
theorem run_delivers (run : WorldCtrl.run events = some final)
    (enough : events.countP Event.isRequest ≤ 100) : Delivers events final := by
  rcases runEvents_numbered flow_initial numbered_initial run with ⟨numbered, requests⟩
  have flow := runEvents_flow flow_initial run
  have below : ∀ obj, final.Holds obj → obj.request < straws.length := by
    intro obj held
    have initially : (initial : State ρ Pose).requests = 0 := rfl
    have count : straws.length = 100 := by simp [straws]
    have number := numbered.below obj held
    omega
  have named : ∀ obj, final.Holds obj → obj.name ≠ none := by
    intro obj held
    rw [numbered.name obj held, List.getElem?_eq_getElem (below obj held)]
    simp
  constructor
  · exact numbered.queued
  · rw [← flow.conserved, List.append_assoc]
    exact List.prefix_append _ _
  · rintro first rest before rfl ran
    rcases exists_middle run with ⟨middle, firstRun, restRun⟩
    cases ran.symm.trans firstRun
    exact runEvents_queued (runEvents_flow flow_initial firstRun) restRun
  · rintro first rest before rfl ran started finished
    rcases exists_middle run with ⟨middle, firstRun, restRun⟩
    cases ran.symm.trans firstRun
    rcases Option.bind_eq_some_iff.mp restRun with ⟨next, cycleRun, laterRun⟩
    have grown := step_grown (runEvents_flow flow_initial firstRun) cycleRun
    apply runEvents_cycle grown.flow grown.queued _ laterRun (flow.idle_of_named named finished)
    rw [step, process, started] at cycleRun
    cases cycleRun
    simp
  · exact named
  · intro obj other objHeld otherHeld same
    apply numbered.eq_of_request objHeld otherHeld
    rw [numbered.name obj objHeld, numbered.name other otherHeld] at same
    exact (List.getElem?_inj (below obj objHeld) straws_nodup).mp same

/-- Two robots whose requests overlap, and a cycle of the world. -/
def overlapping : List (Event Bool ℕ) :=
  [.pollName false 7, .pollName true 8, .putStraw true, .world, .putStraw false] ++
    List.replicate 8 .world

theorem run_delivers_overlapping :
    ∃ final, WorldCtrl.run overlapping = some final ∧ Delivers overlapping final := by
  have runs : (WorldCtrl.run overlapping).isSome := by decide +kernel
  rcases Option.isSome_iff_exists.mp runs with ⟨final, run⟩
  exact ⟨final, run, run_delivers run (by decide)⟩

/-- One robot that makes a hundred and one requests, and a cycle of the world. -/
def overdrawn : List (Event Unit ℕ) :=
  ((List.range 101).flatMap fun pose => [.pollName () pose, .putStraw ()]) ++
    List.replicate 305 .world

/-- The last straw has no name, which ends the thread in the middle of the cycle. -/
theorem not_delivers_overdrawn :
    ∃ final, WorldCtrl.run overdrawn = some final ∧
      final.phase = .ended (some ⟨100, none, 100⟩) ∧ final.queued.length = 101 ∧
      final.sent.length = 100 ∧ ¬Delivers overdrawn final := by
  have ends : (match WorldCtrl.run overdrawn with
    | none => false
    | some final => decide (final.phase = .ended (some ⟨100, none, 100⟩) ∧
        final.queued.length = 101 ∧ final.sent.length = 100)) = true := by
    decide +kernel
  cases run : WorldCtrl.run overdrawn with
  | none => simp [run] at ends
  | some final =>
      rw [run] at ends
      rcases of_decide_eq_true ends with ⟨phase, queued, sent⟩
      refine ⟨final, rfl, phase, queued, sent, fun delivers => ?_⟩
      have requested : final.Holds ⟨100, none, 100⟩ := by
        left
        rw [← (runEvents_flow flow_initial run).conserved, phase]
        simp [Phase.inTransit]
      exact delivers.named _ requested rfl

end Runs

end WorldCtrl

end MrsOptimization
