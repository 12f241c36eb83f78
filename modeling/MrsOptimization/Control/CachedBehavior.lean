import MrsOptimization.Control.MowerCtrl

/-!
# What a cached behaviour caches

`CachedBehavior.getOutput` keeps the last signal for as long as it is asked with
the same request. Ids are boxed, `Long` objects that are compared by reference,
and a null signal is not told apart from an empty cache. So a group of calls
with one number gets one signal from one internal run only if it is a single
call, or carries a single object and does not start with a null signal
(`consistent_iff`).
-/

namespace MrsOptimization

/-- The fields of a `CachedBehavior`; `world` is everything that its `getOutputInternal` reads and
writes, and `runs` counts its runs for no code to read. -/
structure CachedBehavior (ρ σ Signal : Type) where
  cachedOutput : Option Signal
  previousRequestId : ρ
  world : σ
  runs : ℕ

namespace CachedBehavior

/-- A call of `getOutput`, before which the inputs of the behaviour are updated. -/
structure Call (ρ σ : Type) where
  update : σ → σ
  requestId : ρ

def Call.updated {ρ σ Signal : Type} (call : Call ρ σ) (object : CachedBehavior ρ σ Signal) :
    CachedBehavior ρ σ Signal :=
  { object with world := call.update object.world }

section Code

variable {ρ σ Signal : Type} [DecidableEq ρ]
  (getOutputInternal : ρ → σ → Option Signal × σ)

/-- A new object; the boxed `-1` is `initialId`. -/
def initial (initialId : ρ) (world : σ) : CachedBehavior ρ σ Signal :=
  ⟨none, initialId, world, 0⟩

/-- Objects of `ρ` are references: `requestId != this.previousRequestId` compares these. -/
def getOutput (requestId : ρ) (object : CachedBehavior ρ σ Signal) :
    Option Signal × CachedBehavior ρ σ Signal :=
  let cachedOutput :=
    if requestId ≠ object.previousRequestId then none else object.cachedOutput
  match cachedOutput with
  | some signal => (some signal, object)
  | none =>
      let result := getOutputInternal requestId object.world
      (result.1, ⟨result.1, requestId, result.2, object.runs + 1⟩)

def calls : List (Call ρ σ) → CachedBehavior ρ σ Signal →
    List (Option Signal) × CachedBehavior ρ σ Signal
  | [], object => ([], object)
  | call :: rest, object =>
      let first := getOutput getOutputInternal call.requestId (call.updated object)
      let others := calls rest first.2
      (first.1 :: others.1, others.2)

/-- All calls return the same signal, which takes one run of `getOutputInternal`. -/
def Consistent (group : List (Call ρ σ)) (object : CachedBehavior ρ σ Signal) : Prop :=
  (∃ signal, ∀ answer ∈ (calls getOutputInternal group object).1, answer = signal) ∧
    (calls getOutputInternal group object).2.runs = object.runs + 1

end Code

section Calls

variable {ρ σ Signal : Type} [DecidableEq ρ]
  {getOutputInternal : ρ → σ → Option Signal × σ} {requestId : ρ}
  {object : CachedBehavior ρ σ Signal}

theorem getOutput_of_cached {signal : Signal} (same : object.previousRequestId = requestId)
    (filled : object.cachedOutput = some signal) :
    getOutput getOutputInternal requestId object = (some signal, object) := by
  simp [getOutput, same, filled]

theorem getOutput_of_stale (object : CachedBehavior ρ σ Signal)
    (stale : object.previousRequestId ≠ requestId ∨ object.cachedOutput = none) :
    getOutput getOutputInternal requestId object =
      let result := getOutputInternal requestId object.world
      (result.1, ⟨result.1, requestId, result.2, object.runs + 1⟩) := by
  have empty :
      (if requestId ≠ object.previousRequestId then none else object.cachedOutput) = none := by
    rcases stale with different | empty
    · rw [if_pos different.symm]
    · rw [empty, ite_self]
  simp only [getOutput, empty]

/-- Whatever a call finds in the cache, it leaves its own request there. -/
theorem previousRequestId_getOutput :
    (getOutput getOutputInternal requestId object).2.previousRequestId = requestId := by
  by_cases same : object.previousRequestId = requestId
  · cases filled : object.cachedOutput with
    | none => rw [getOutput_of_stale object (Or.inr filled)]
    | some signal =>
        rw [getOutput_of_cached same filled]
        exact same
  · rw [getOutput_of_stale object (Or.inl same)]

theorem runs_le_getOutput (getOutputInternal : ρ → σ → Option Signal × σ) (requestId : ρ)
    (object : CachedBehavior ρ σ Signal) :
    object.runs ≤ (getOutput getOutputInternal requestId object).2.runs := by
  rw [getOutput]
  split <;> simp

theorem runs_le_calls (group : List (Call ρ σ)) :
    object.runs ≤ (calls getOutputInternal group object).2.runs := by
  induction group generalizing object with
  | nil => exact le_rfl
  | cons call rest ih =>
      exact (runs_le_getOutput _ call.requestId (call.updated object)).trans ih

/-- Calls that carry the object of a filled cache are answered from it. -/
theorem calls_of_cached (getOutputInternal : ρ → σ → Option Signal × σ)
    (object : CachedBehavior ρ σ Signal) {group : List (Call ρ σ)}
    {signal : Signal} (filled : object.cachedOutput = some signal)
    (same : ∀ call ∈ group, call.requestId = object.previousRequestId) :
    (∀ answer ∈ (calls getOutputInternal group object).1, answer = some signal) ∧
      (calls getOutputInternal group object).2.runs = object.runs := by
  induction group generalizing object with
  | nil => simp [calls]
  | cons call rest ih =>
      have hit : getOutput getOutputInternal call.requestId (call.updated object) =
          (some signal, call.updated object) :=
        getOutput_of_cached (same call List.mem_cons_self).symm filled
      have later := ih (call.updated object) filled
        fun other otherMem => same other (List.mem_cons_of_mem call otherMem)
      simp only [calls, hit]
      exact ⟨List.forall_mem_cons.mpr ⟨rfl, later.1⟩, later.2⟩

/-- The behaviour runs again for another object, and as long as its answer is null. -/
theorem runs_lt_calls {group : List (Call ρ σ)}
    (stale : (∃ call ∈ group, call.requestId ≠ object.previousRequestId) ∨
      object.cachedOutput = none ∧ group ≠ []) :
    object.runs < (calls getOutputInternal group object).2.runs := by
  induction group generalizing object with
  | nil => simp at stale
  | cons call rest ih =>
      by_cases miss : object.previousRequestId ≠ call.requestId ∨ object.cachedOutput = none
      · have ran : (getOutput getOutputInternal call.requestId (call.updated object)).2.runs =
            object.runs + 1 := by
          rw [getOutput_of_stale (call.updated object) miss]
          rfl
        exact (Nat.lt_of_succ_le ran.ge).trans_le (runs_le_calls rest)
      · push Not at miss
        rcases Option.ne_none_iff_exists'.mp miss.2 with ⟨signal, filled⟩
        have hit : getOutput getOutputInternal call.requestId (call.updated object) =
            (some signal, call.updated object) := getOutput_of_cached miss.1 filled
        simp only [calls, hit]
        apply @ih (call.updated object)
        left
        rcases stale with ⟨other, otherMem, different⟩ | ⟨empty, -⟩
        · rcases List.mem_cons.mp otherMem with rfl | later
          · exact absurd miss.1.symm different
          · exact ⟨other, later, different⟩
        · exact absurd empty miss.2

/-- After some calls the cache is empty or holds the signal of the last request. -/
theorem stale_calls {before : List (Call ρ σ)} {initialId : ρ} {world : σ}
    (boundary : ∀ last ∈ before.getLast?, last.requestId ≠ requestId) :
    let reached := (calls getOutputInternal before (initial initialId world)).2
    reached.previousRequestId ≠ requestId ∨ reached.cachedOutput = none := by
  suffices general : ∀ object : CachedBehavior ρ σ Signal,
      (object.previousRequestId ≠ requestId ∨ object.cachedOutput = none ∨ before ≠ []) →
        (calls getOutputInternal before object).2.previousRequestId ≠ requestId ∨
          (calls getOutputInternal before object).2.cachedOutput = none from
    general _ (Or.inr (Or.inl rfl))
  induction before with
  | nil => simp [calls]
  | cons call rest ih =>
      intro object _
      apply ih
      · intro last lastMem
        apply boundary
        rw [List.getLast?_cons]
        simp [Option.mem_def.mp lastMem]
      · by_cases none : rest = []
        · left
          rw [previousRequestId_getOutput]
          apply boundary
          simp [none]
        · exact Or.inr (Or.inr none)

end Calls

section Groups

variable {ρ σ Signal : Type} [DecidableEq ρ]

/-- After any calls, a group of calls that begins with a number different from the last one gets
one signal from one run of `getOutputInternal` if and only if it is a single call, or all its ids
are one object and the first run does not answer null. The ids of the group may be equal as
numbers without being one object. -/
theorem consistent_iff (longValue : ρ → ℤ) (getOutputInternal : ρ → σ → Option Signal × σ)
    (initialId : ρ) (world : σ) (before : List (Call ρ σ)) (first : Call ρ σ)
    (rest : List (Call ρ σ))
    (boundary : ∀ last ∈ before.getLast?, longValue last.requestId ≠ longValue first.requestId) :
    let object := (calls getOutputInternal before (initial initialId world)).2
    Consistent getOutputInternal (first :: rest) object ↔
      rest = [] ∨ ((∀ call ∈ rest, call.requestId = first.requestId) ∧
        (getOutputInternal first.requestId (first.update object.world)).1 ≠ none) := by
  intro object
  let result := getOutputInternal first.requestId (first.update object.world)
  let next : CachedBehavior ρ σ Signal :=
    ⟨result.1, first.requestId, result.2, object.runs + 1⟩
  have stale : object.previousRequestId ≠ first.requestId ∨ object.cachedOutput = none :=
    stale_calls fun last lastMem same => boundary last lastMem (congrArg longValue same)
  have split : calls getOutputInternal (first :: rest) object =
      (result.1 :: (calls getOutputInternal rest next).1,
        (calls getOutputInternal rest next).2) := by
    rw [calls, getOutput_of_stale (first.updated object) stale]
    rfl
  rw [Consistent, split]
  constructor
  · rintro ⟨-, once⟩
    by_contra fails
    push Not at fails
    rcases fails with ⟨more, fails⟩
    have again : next.runs < (calls getOutputInternal rest next).2.runs := by
      apply runs_lt_calls
      by_cases same : ∀ call ∈ rest, call.requestId = first.requestId
      · exact Or.inr ⟨fails same, more⟩
      · push Not at same
        exact Or.inl same
    exact again.ne' once
  · rintro (rfl | ⟨same, answered⟩)
    · exact ⟨⟨result.1, by simp [calls]⟩, rfl⟩
    · rcases Option.ne_none_iff_exists'.mp answered with ⟨signal, filled⟩
      have cached := calls_of_cached getOutputInternal next filled same
      refine ⟨⟨some signal, ?_⟩, cached.2⟩
      intro answer answerMem
      rcases List.mem_cons.mp answerMem with rfl | later
      · exact filled
      · exact cached.1 answer later

/-- A cropper that reads twenty pieces of grass. -/
def cropGrass (load : Load) : Load :=
  (MowGrassBehavior.getOutputInternal (some ((List.range 20).map Nat.cast)) load).2

/-- Two calls with one object after the load has been filled. -/
theorem consistent_iff_straw :
    Consistent (fun _ => CreateStrawBehavior.getOutputInternal 20) [⟨cropGrass, 1⟩, ⟨id, 1⟩]
        (initial 0 ⟨∅, ∅⟩ : CachedBehavior ℕ Load WorldControlSignal) ↔
      [⟨id, 1⟩] = ([] : List (Call ℕ Load)) ∨
        (∀ call ∈ ([⟨id, 1⟩] : List (Call ℕ Load)), call.requestId = 1) ∧
          (CreateStrawBehavior.getOutputInternal 20 (cropGrass ⟨∅, ∅⟩)).1 ≠ none :=
  consistent_iff (fun _ => 1000) (fun _ => CreateStrawBehavior.getOutputInternal 20) 0 ⟨∅, ∅⟩ []
    ⟨cropGrass, 1⟩ [⟨id, 1⟩] (by simp)

/-- `CreateStrawBehavior` asked twice with the number `1000`: with one object, while the load gets
full in between, and with two objects, while the load is full at first. -/
theorem not_consistent_straw :
    (calls (fun _ => CreateStrawBehavior.getOutputInternal 20) [⟨id, 1⟩, ⟨cropGrass, 1⟩]
        (initial 0 ⟨∅, ∅⟩ : CachedBehavior ℕ Load WorldControlSignal)).1 =
          [none, some ⟨.placeStraw, []⟩] ∧
      ¬Consistent (fun _ => CreateStrawBehavior.getOutputInternal 20)
        [⟨id, 1⟩, ⟨cropGrass, 1⟩]
        (initial 0 ⟨∅, ∅⟩ : CachedBehavior ℕ Load WorldControlSignal) ∧
      (calls (fun _ => CreateStrawBehavior.getOutputInternal 20) [⟨cropGrass, 1⟩, ⟨id, 2⟩]
        (initial 0 ⟨∅, ∅⟩ : CachedBehavior ℕ Load WorldControlSignal)).1 =
          [some ⟨.placeStraw, []⟩, none] ∧
      ¬Consistent (fun _ => CreateStrawBehavior.getOutputInternal 20)
        [⟨cropGrass, 1⟩, ⟨id, 2⟩]
        (initial 0 ⟨∅, ∅⟩ : CachedBehavior ℕ Load WorldControlSignal) := by
  refine ⟨by decide +kernel, fun consistent => ?_, by decide +kernel, fun consistent => ?_⟩
  · exact absurd consistent.2 (by decide +kernel)
  · exact absurd consistent.2 (by decide +kernel)

end Groups

section Networks

variable {ι ρ Inputs σ Signal : Type} [DecidableEq ι] [DecidableEq ρ]

/-- The object of a leaf in a network. -/
def ofLeaf (state : NetworkState ι ρ σ Signal) (i : ι) : CachedBehavior ρ σ Signal :=
  ⟨state.cachedOutput i, state.previousRequestId i, state.leaves, state.steps i⟩

/-- A leaf of a network answers as a cached behaviour whose world are the states of the leaves. -/
theorem getOutput_ofLeaf {net : Network ι Inputs σ Signal} {i : ι} (leaf : net.node i = .leaf)
    (inputs : Inputs) (requestId : ρ) (state : NetworkState ι ρ σ Signal) :
    getOutput (fun _ => net.internal i inputs) requestId (ofLeaf state i) =
      ((net.getOutput inputs requestId i state).1,
        ofLeaf (net.getOutput inputs requestId i state).2 i) := by
  by_cases same : state.previousRequestId i = requestId
  · cases filled : state.cachedOutput i with
    | some signal =>
        rw [net.getOutput_of_cached same filled, getOutput_of_cached same filled]
    | none =>
        rw [getOutput_of_stale (ofLeaf state i) (Or.inr filled), Network.getOutput,
          NetworkState.forget, if_pos same.symm, filled]
        simp [Network.getOutputInternal_leaf leaf, NetworkState.stepLeaf, NetworkState.remember,
          ofLeaf]
  · rw [getOutput_of_stale (ofLeaf state i) (Or.inl same), Network.getOutput_leaf leaf same]
    simp [ofLeaf]

end Networks

end CachedBehavior

end MrsOptimization
