import Mathlib.Logic.Function.Basic

/-!
# Total-correctness triples for stateful computations that may fail

A program over a mutable store is a computation in `StateT σ Option`; failing
stands for an uncaught exception. `Triple pre program post` says that from every
store satisfying `pre` the program ends without an exception, with a result and
a store satisfying `post`.

`Computes inv program value` is the special case used to compare a program that
reads through caches with the value it should deliver: under the store invariant
`inv` the program returns exactly `value` and keeps `inv`.
-/

namespace MrsOptimization

universe u

variable {σ α β γ : Type u}

/-- From every store satisfying `pre`, `program` succeeds and establishes `post`. -/
def Triple (pre : σ → Prop) (program : StateT σ Option α) (post : α → σ → Prop) : Prop :=
  ∀ store, pre store →
    ∃ result final, program.run store = some (result, final) ∧ post result final

namespace Triple

variable {pre : σ → Prop}

theorem pure {post : α → σ → Prop} {result : α}
    (holds : ∀ store, pre store → post result store) :
    Triple pre (Pure.pure result) post := by
  intro store preHolds
  exact ⟨result, store, rfl, holds store preHolds⟩

theorem bind {post : β → σ → Prop} {program : StateT σ Option α}
    {continuation : α → StateT σ Option β} (mid : α → σ → Prop) (first : Triple pre program mid)
    (second : ∀ result, Triple (mid result) (continuation result) post) :
    Triple pre (program >>= continuation) post := by
  intro store preHolds
  rcases first store preHolds with ⟨result, middle, runFirst, midHolds⟩
  rcases second result middle midHolds with ⟨value, final, runSecond, postHolds⟩
  refine ⟨value, final, ?_, postHolds⟩
  simp [StateT.run_bind, runFirst, runSecond]

theorem consequence {weakPre : σ → Prop} {strongPost post : α → σ → Prop}
    {program : StateT σ Option α} (triple : Triple weakPre program strongPost)
    (weaken : ∀ store, pre store → weakPre store)
    (strengthen : ∀ result store, strongPost result store → post result store) :
    Triple pre program post := by
  intro store preHolds
  rcases triple store (weaken store preHolds) with ⟨result, final, runs, holds⟩
  exact ⟨result, final, runs, strengthen result final holds⟩

theorem assuming {fact : Prop} {post : α → σ → Prop} {program : StateT σ Option α}
    (triple : fact → Triple pre program post) :
    Triple (fun store => fact ∧ pre store) program post := by
  rintro store ⟨holds, preHolds⟩
  exact triple holds store preHolds

theorem getStore {post : σ → σ → Prop} (holds : ∀ store, pre store → post store store) :
    Triple pre MonadState.get post := by
  intro store preHolds
  exact ⟨store, store, rfl, holds store preHolds⟩

theorem foldlM {items : List α} {init : β} {step : β → α → StateT σ Option β}
    (invariant : List α → β → σ → Prop)
    (preserved : ∀ (processed : List α) (item : α) (remaining : List α) (acc : β),
      items = processed ++ item :: remaining →
        Triple (invariant processed acc) (step acc item) (invariant (processed ++ [item]))) :
    Triple (invariant [] init) (items.foldlM step init) (invariant items) := by
  suffices general : ∀ (remaining processed : List α) (acc : β),
      items = processed ++ remaining →
        Triple (invariant processed acc) (remaining.foldlM step acc) (invariant items) from
    general items [] init rfl
  intro remaining
  induction remaining with
  | nil =>
      intro processed acc split
      rw [List.append_nil] at split
      subst split
      exact Triple.pure fun _ holds => holds
  | cons item rest ih =>
      intro processed acc split
      rw [List.foldlM_cons]
      refine Triple.bind _ (preserved processed item rest acc split) fun next => ?_
      exact ih (processed ++ [item]) next (by simpa using split)

theorem forM (items : List α) (body : α → StateT σ Option PUnit)
    (invariant : List α → σ → Prop)
    (preserved : ∀ (processed : List α) (item : α) (remaining : List α),
      items = processed ++ item :: remaining →
        Triple (invariant processed) (body item) fun _ => invariant (processed ++ [item])) :
    Triple (invariant []) (items.forM body) fun _ => invariant items := by
  suffices general : ∀ (remaining processed : List α), items = processed ++ remaining →
      Triple (invariant processed) (remaining.forM body) fun _ => invariant items from
    general items [] rfl
  intro remaining
  induction remaining with
  | nil =>
      intro processed split
      rw [List.append_nil] at split
      subst split
      exact Triple.pure fun _ holds => holds
  | cons item rest ih =>
      intro processed split
      change Triple _ (body item >>= fun _ => rest.forM body) _
      refine Triple.bind _ (preserved processed item rest split) fun _ => ?_
      exact ih (processed ++ [item]) (by simpa using split)

end Triple

/-- A program fails if it fails after any first part. -/
theorem run_bind_eq_none {program : StateT σ Option α} {continuation : α → StateT σ Option β}
    (fails : ∀ result store, (continuation result).run store = none) (store : σ) :
    (program >>= continuation).run store = none := by
  rw [StateT.run_bind]
  cases program.run store with
  | none => rfl
  | some reached => exact fails reached.1 reached.2

/-- Under the store invariant `inv`, `program` delivers `value` and keeps `inv`. -/
def Computes (inv : σ → Prop) (program : StateT σ Option α) (value : α) : Prop :=
  Triple inv program fun result store => result = value ∧ inv store

namespace Computes

variable {inv : σ → Prop}

theorem pure (value : α) : Computes inv (Pure.pure value) value :=
  Triple.pure fun _ holds => ⟨rfl, holds⟩

theorem bind {program : StateT σ Option α} {continuation : α → StateT σ Option β}
    {value : α} {result : β} (first : Computes inv program value)
    (second : Computes inv (continuation value) result) :
    Computes inv (program >>= continuation) result := by
  refine Triple.bind _ first fun middle => ?_
  intro store holds
  rcases holds with ⟨rfl, invHolds⟩
  exact second store invHolds

theorem foldlM {items : List α} {step : β → α → StateT σ Option β} {f : β → α → β}
    (each : ∀ acc, ∀ item ∈ items, Computes inv (step acc item) (f acc item)) (init : β) :
    Computes inv (items.foldlM step init) (items.foldl f init) := by
  induction items generalizing init with
  | nil => exact Computes.pure init
  | cons item rest ih =>
      rw [List.foldlM_cons, List.foldl_cons]
      refine Computes.bind (each init item (by simp)) ?_
      exact ih (fun acc other otherMem => each acc other (by simp [otherMem])) (f init item)

theorem mapM {items : List α} {program : α → StateT σ Option β} {value : α → β}
    (each : ∀ item ∈ items, Computes inv (program item) (value item)) :
    Computes inv (items.mapM program) (items.map value) := by
  induction items with
  | nil => exact Computes.pure []
  | cons item rest ih =>
      rw [List.mapM_cons, List.map_cons]
      refine Computes.bind (each item (by simp)) ?_
      exact Computes.bind (ih fun other otherMem => each other (by simp [otherMem]))
        (Computes.pure _)

section PureVersion

/-- A program written for any monad computes its own result at `Id` when its steps do. -/
theorem pure_run (value : α) :
    Computes inv (Pure.pure value) (Pure.pure value : Id α).run :=
  Computes.pure value

theorem bind_run {program : StateT σ Option α} {continuation : α → StateT σ Option β}
    {pureProgram : Id α} {pureContinuation : α → Id β}
    (first : Computes inv program pureProgram.run)
    (second : Computes inv (continuation pureProgram.run)
      (pureContinuation pureProgram.run).run) :
    Computes inv (program >>= continuation) (pureProgram >>= pureContinuation).run :=
  Computes.bind first second

theorem foldlM_run {items : List α} {step : β → α → StateT σ Option β} {pureStep : β → α → Id β}
    (each : ∀ acc, ∀ item ∈ items, Computes inv (step acc item) (pureStep acc item).run)
    (init : β) :
    Computes inv (items.foldlM step init) (items.foldlM pureStep init).run := by
  rw [List.idRun_foldlM]
  exact Computes.foldlM each init

end PureVersion

end Computes

end MrsOptimization
