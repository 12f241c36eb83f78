import Mathlib.Data.Set.Card
import Mathlib.Logic.Function.Basic
import Mathlib.Tactic.Linarith

/-!
# Networks of cached behaviours

Every behaviour is a `CachedBehavior`: it keeps its last non-null signal for as
long as the queries carry the same request object. Nodes are identified by the
elements of a type and may be shared; a network is acyclic because every node
has a larger rank than its inputs. A signal is modelled by its contents: the
object that a leaf returns is its own, and is written only when the leaf takes
its internal step.

`Network.meaning` is the value a node has in a tick. `TickInvariant` says of
every partly filled cache that it agrees with this meaning.
-/

namespace MrsOptimization

/-- The behaviour classes without a state of their own, and the leaves. -/
inductive Node (ι : Type) where
  | subsumption (slave master : ι)
  | inhibition (slave master : ι)
  | dummy (input : ι)
  | leaf

def Node.inputs {ι : Type} : Node ι → List ι
  | .subsumption slave master => [slave, master]
  | .inhibition slave master => [slave, master]
  | .dummy input => [input]
  | .leaf => []

/-- A network of behaviours; `internal` is the `getOutputInternal` of the leaves. -/
structure Network (ι Inputs σ Signal : Type) where
  node : ι → Node ι
  internal : ι → Inputs → σ → Option Signal × σ
  rank : ι → ℕ
  acyclic : ∀ i, ∀ j ∈ (node i).inputs, rank j < rank i

/-- The fields of all `CachedBehavior` objects and the state of the leaves. The field `steps`
counts the internal steps of the leaves; no code reads it. -/
structure NetworkState (ι ρ σ Signal : Type) where
  cachedOutput : ι → Option Signal
  previousRequestId : ι → ρ
  leaves : σ
  steps : ι → ℕ

section Code

variable {ι ρ Inputs σ Signal : Type}

/-- A tick: one request object, fixed inputs, and queries of any nodes. -/
structure Tick (ι ρ Inputs : Type) where
  requestId : ρ
  inputs : Inputs
  queries : List ι

/-- No cache has been filled yet; all requests are compared with the object `initialId`. -/
def NetworkState.initial (initialId : ρ) (leaves : σ) : NetworkState ι ρ σ Signal :=
  ⟨fun _ => none, fun _ => initialId, leaves, fun _ => 0⟩

variable [DecidableEq ι]

namespace NetworkState

/-- `cachedOutput = ...; previousRequestId = requestId`. -/
def remember (state : NetworkState ι ρ σ Signal) (i : ι) (requestId : ρ)
    (output : Option Signal) : NetworkState ι ρ σ Signal :=
  { state with
    cachedOutput := Function.update state.cachedOutput i output
    previousRequestId := Function.update state.previousRequestId i requestId }

def stepLeaf (state : NetworkState ι ρ σ Signal) (i : ι) (result : Option Signal × σ) :
    Option Signal × NetworkState ι ρ σ Signal :=
  (result.1,
    { state with
      leaves := result.2
      steps := Function.update state.steps i (state.steps i + 1) })

end NetworkState

namespace Network

/-- `getOutputInternal` of the node classes, with `query` for `getOutput` of their inputs. -/
def getOutputInternal (net : Network ι Inputs σ Signal) (inputs : Inputs) (i : ι)
    (query : (j : ι) → net.rank j < net.rank i → NetworkState ι ρ σ Signal →
      Option Signal × NetworkState ι ρ σ Signal) (state : NetworkState ι ρ σ Signal) :
    Option Signal × NetworkState ι ρ σ Signal :=
  match found : net.node i with
  | .subsumption slave master =>
      have masterBelow := net.acyclic i master (by simp [found, Node.inputs])
      have slaveBelow := net.acyclic i slave (by simp [found, Node.inputs])
      let first := query master masterBelow state
      if first.1.isSome then query master masterBelow first.2 else query slave slaveBelow first.2
  | .inhibition slave master =>
      have masterBelow := net.acyclic i master (by simp [found, Node.inputs])
      have slaveBelow := net.acyclic i slave (by simp [found, Node.inputs])
      let first := query master masterBelow state
      if first.1.isSome then (none, first.2) else query slave slaveBelow first.2
  | .dummy input => query input (net.acyclic i input (by simp [found, Node.inputs])) state
  | .leaf => state.stepLeaf i (net.internal i inputs state.leaves)

section Classes

variable {net : Network ι Inputs σ Signal} {inputs : Inputs} {i slave master input : ι}
  {query : (j : ι) → net.rank j < net.rank i → NetworkState ι ρ σ Signal →
    Option Signal × NetworkState ι ρ σ Signal} {state : NetworkState ι ρ σ Signal}

theorem getOutputInternal_subsumption (node : net.node i = .subsumption slave master) :
    net.getOutputInternal inputs i query state =
      let first := query master (net.acyclic i master (by simp [node, Node.inputs])) state
      if first.1.isSome then
        query master (net.acyclic i master (by simp [node, Node.inputs])) first.2
      else query slave (net.acyclic i slave (by simp [node, Node.inputs])) first.2 := by
  rw [getOutputInternal]
  split <;> rename_i found <;> cases node.symm.trans found
  rfl

theorem getOutputInternal_inhibition (node : net.node i = .inhibition slave master) :
    net.getOutputInternal inputs i query state =
      let first := query master (net.acyclic i master (by simp [node, Node.inputs])) state
      if first.1.isSome then (none, first.2)
      else query slave (net.acyclic i slave (by simp [node, Node.inputs])) first.2 := by
  rw [getOutputInternal]
  split <;> rename_i found <;> cases node.symm.trans found
  rfl

theorem getOutputInternal_dummy (node : net.node i = .dummy input) :
    net.getOutputInternal inputs i query state =
      query input (net.acyclic i input (by simp [node, Node.inputs])) state := by
  rw [getOutputInternal]
  split <;> rename_i found <;> cases node.symm.trans found
  rfl

theorem getOutputInternal_leaf (node : net.node i = .leaf) :
    net.getOutputInternal inputs i query state =
      state.stepLeaf i (net.internal i inputs state.leaves) := by
  rw [getOutputInternal]
  split <;> rename_i found <;> cases node.symm.trans found
  rfl

end Classes

end Network

variable [DecidableEq ρ]

/-- `if (requestId != this.previousRequestId) cachedOutput = null`. -/
def NetworkState.forget (state : NetworkState ι ρ σ Signal) (i : ι) (requestId : ρ) :
    NetworkState ι ρ σ Signal :=
  if requestId = state.previousRequestId i then state
  else { state with cachedOutput := Function.update state.cachedOutput i none }

namespace Network

def getOutput (net : Network ι Inputs σ Signal) (inputs : Inputs) (requestId : ρ) (i : ι)
    (state : NetworkState ι ρ σ Signal) : Option Signal × NetworkState ι ρ σ Signal :=
  let state := state.forget i requestId
  match state.cachedOutput i with
  | some signal => (some signal, state)
  | none =>
      let result := net.getOutputInternal inputs i
        (fun j _ state => getOutput net inputs requestId j state) state
      (result.1, result.2.remember i requestId result.1)
termination_by net.rank i

section FirstQuery

variable {net : Network ι Inputs σ Signal} {inputs : Inputs} {requestId : ρ} {i j : ι}
  {state : NetworkState ι ρ σ Signal}

theorem getOutput_of_cached {signal : Signal} (same : state.previousRequestId i = requestId)
    (filled : state.cachedOutput i = some signal) :
    net.getOutput inputs requestId i state = (some signal, state) := by
  have kept : state.forget i requestId = state := if_pos same.symm
  rw [getOutput, kept, filled]

theorem getOutput_of_stale (stale : state.previousRequestId i ≠ requestId) :
    net.getOutput inputs requestId i state =
      let result := net.getOutputInternal inputs i
        (fun j _ state => net.getOutput inputs requestId j state)
        { state with cachedOutput := Function.update state.cachedOutput i none }
      (result.1, result.2.remember i requestId result.1) := by
  have cleared : state.forget i requestId =
      { state with cachedOutput := Function.update state.cachedOutput i none } :=
    if_neg (Ne.symm stale)
  rw [getOutput, cleared]
  simp only [Function.update_self]

theorem getOutput_leaf (node : net.node i = .leaf)
    (stale : state.previousRequestId i ≠ requestId) :
    let step := net.internal i inputs state.leaves
    net.getOutput inputs requestId i state =
      (step.1, { cachedOutput := Function.update state.cachedOutput i step.1
                 previousRequestId := Function.update state.previousRequestId i requestId
                 leaves := step.2
                 steps := Function.update state.steps i (state.steps i + 1) }) := by
  rw [getOutput_of_stale stale]
  simp only [getOutputInternal_leaf node, NetworkState.stepLeaf, NetworkState.remember,
    Function.update_idem]

/-- The first query of an output that passes on the signal of a leaf. -/
theorem getOutput_dummy (node : net.node i = .dummy j) (leafNode : net.node j = .leaf)
    (stale : state.previousRequestId i ≠ requestId)
    (leafStale : state.previousRequestId j ≠ requestId) :
    let step := net.internal j inputs state.leaves
    net.getOutput inputs requestId i state =
      (step.1,
        { cachedOutput := Function.update (Function.update state.cachedOutput j step.1) i step.1
          previousRequestId :=
            Function.update (Function.update state.previousRequestId j requestId) i requestId
          leaves := step.2
          steps := Function.update state.steps j (state.steps j + 1) }) := by
  have different : i ≠ j := by
    rintro rfl
    cases node.symm.trans leafNode
  have cleared : NetworkState.previousRequestId
      { state with cachedOutput := Function.update state.cachedOutput i none } j ≠ requestId :=
    leafStale
  rw [getOutput_of_stale stale]
  simp only [getOutputInternal_dummy node]
  rw [getOutput_leaf leafNode cleared]
  simp only [NetworkState.remember, Function.update_comm different, Function.update_idem]

end FirstQuery

def getOutputs (net : Network ι Inputs σ Signal) (inputs : Inputs) (requestId : ρ) :
    List ι → NetworkState ι ρ σ Signal → List (Option Signal) × NetworkState ι ρ σ Signal
  | [], state => ([], state)
  | i :: rest, state =>
      let first := net.getOutput inputs requestId i state
      let others := getOutputs net inputs requestId rest first.2
      (first.1 :: others.1, others.2)

def run (net : Network ι Inputs σ Signal) :
    List (Tick ι ρ Inputs) → NetworkState ι ρ σ Signal → NetworkState ι ρ σ Signal
  | [], state => state
  | tick :: rest, state =>
      run net rest (net.getOutputs tick.inputs tick.requestId tick.queries state).2

end Network

end Code

/-- A leaf behaviour with a state of its own, which it leaves alone when it answers null, so
that it would answer null again. What it reads besides, such as the random numbers of a tick,
is among the inputs. -/
structure Leaf (Inputs τ Signal : Type) where
  step : Inputs → τ → Option Signal × τ
  quiet : ∀ inputs own, (step inputs own).1 = none → (step inputs own).2 = own

structure LeafNetwork (ι Inputs τ Signal : Type) where
  node : ι → Node ι
  leaf : ι → Leaf Inputs τ Signal
  rank : ι → ℕ
  acyclic : ∀ i, ∀ j ∈ (node i).inputs, rank j < rank i

theorem exists_rank {ι : Type} [Finite ι] (node : ι → Node ι)
    (acyclic : ∀ i, ¬Relation.TransGen (fun j i => j ∈ (node i).inputs) i i) :
    ∃ rank : ι → ℕ, ∀ i, ∀ j ∈ (node i).inputs, rank j < rank i := by
  have finite : ∀ i, {j | Relation.TransGen (fun j i => j ∈ (node i).inputs) j i}.Finite :=
    fun i => Set.toFinite _
  refine ⟨fun i => Set.ncard {j | Relation.TransGen (fun j i => j ∈ (node i).inputs) j i},
    fun i j jMem => Set.ncard_lt_ncard ?_ (finite i)⟩
  have jBelow : Relation.TransGen (fun j i => j ∈ (node i).inputs) j i := .single jMem
  refine Set.ssubset_iff_of_subset (fun k kBelow => kBelow.trans jBelow) |>.mpr
    ⟨j, jBelow, acyclic j⟩

/-- Every finite network without cycles over independent leaves is a `LeafNetwork`. -/
theorem exists_leafNetwork {ι Inputs τ Signal : Type} [Finite ι] (node : ι → Node ι)
    (leaf : ι → Leaf Inputs τ Signal)
    (acyclic : ∀ i, ¬Relation.TransGen (fun j i => j ∈ (node i).inputs) i i) :
    ∃ net : LeafNetwork ι Inputs τ Signal, net.node = node ∧ net.leaf = leaf := by
  rcases exists_rank node acyclic with ⟨rank, below⟩
  exact ⟨⟨node, leaf, rank, below⟩, rfl, rfl⟩

section Meaning

variable {ι ρ Inputs τ Signal : Type}

namespace LeafNetwork

/-- The structural meaning of a node when the leaves are in the given states. -/
def meaning (net : LeafNetwork ι Inputs τ Signal) (inputs : Inputs) (leaves : ι → τ) (i : ι) :
    Option Signal :=
  match found : net.node i with
  | .subsumption slave master =>
      have masterBelow := net.acyclic i master (by simp [found, Node.inputs])
      have slaveBelow := net.acyclic i slave (by simp [found, Node.inputs])
      if (meaning net inputs leaves master).isSome then meaning net inputs leaves master
      else meaning net inputs leaves slave
  | .inhibition slave master =>
      have masterBelow := net.acyclic i master (by simp [found, Node.inputs])
      have slaveBelow := net.acyclic i slave (by simp [found, Node.inputs])
      if (meaning net inputs leaves master).isSome then none
      else meaning net inputs leaves slave
  | .dummy input =>
      have inputBelow := net.acyclic i input (by simp [found, Node.inputs])
      meaning net inputs leaves input
  | .leaf => ((net.leaf i).step inputs (leaves i)).1
termination_by net.rank i

section Classes

variable {net : LeafNetwork ι Inputs τ Signal} {inputs : Inputs} {leaves : ι → τ}
  {i slave master input : ι}

theorem meaning_subsumption (node : net.node i = .subsumption slave master) :
    net.meaning inputs leaves i =
      if (net.meaning inputs leaves master).isSome then net.meaning inputs leaves master
      else net.meaning inputs leaves slave := by
  rw [meaning]
  split <;> rename_i found <;> cases node.symm.trans found
  rfl

theorem meaning_inhibition (node : net.node i = .inhibition slave master) :
    net.meaning inputs leaves i =
      if (net.meaning inputs leaves master).isSome then none
      else net.meaning inputs leaves slave := by
  rw [meaning]
  split <;> rename_i found <;> cases node.symm.trans found
  rfl

theorem meaning_dummy (node : net.node i = .dummy input) :
    net.meaning inputs leaves i = net.meaning inputs leaves input := by
  rw [meaning]
  split <;> rename_i found <;> cases node.symm.trans found
  rfl

theorem meaning_leaf (node : net.node i = .leaf) :
    net.meaning inputs leaves i = ((net.leaf i).step inputs (leaves i)).1 := by
  rw [meaning]
  split <;> rename_i found <;> cases node.symm.trans found
  rfl

theorem meaning_of_silent
    (node : net.node i = .subsumption slave master ∨ net.node i = .inhibition slave master)
    (silent : net.meaning inputs leaves master = none) :
    net.meaning inputs leaves i = net.meaning inputs leaves slave := by
  rcases node with node | node
  · rw [meaning_subsumption node, silent]
    rfl
  · rw [meaning_inhibition node, silent]
    rfl

end Classes

/-- `net.Demands inputs leaves i j`: answering a query of `i` may query `j`. -/
inductive Demands (net : LeafNetwork ι Inputs τ Signal) (inputs : Inputs) (leaves : ι → τ) :
    ι → ι → Prop where
  | self (i : ι) : Demands net inputs leaves i i
  | master {i slave master j : ι}
      (node : net.node i = .subsumption slave master ∨ net.node i = .inhibition slave master)
      (rest : Demands net inputs leaves master j) : Demands net inputs leaves i j
  | slave {i slave master j : ι}
      (node : net.node i = .subsumption slave master ∨ net.node i = .inhibition slave master)
      (silent : net.meaning inputs leaves master = none)
      (rest : Demands net inputs leaves slave j) : Demands net inputs leaves i j
  | input {i input j : ι} (node : net.node i = .dummy input)
      (rest : Demands net inputs leaves input j) : Demands net inputs leaves i j

end LeafNetwork

/-- The state of one leaf in a tick: as at the start, also when it has answered null, or
stepped once with its answer cached. -/
def NetworkState.LeafInvariant (net : LeafNetwork ι Inputs τ Signal) (inputs : Inputs)
    (requestId : ρ) (start state : NetworkState ι ρ (ι → τ) Signal) (i : ι) : Prop :=
  state.leaves i = start.leaves i ∧
      ((net.meaning inputs start.leaves i).isSome → state.steps i = start.steps i) ∨
    state.leaves i = ((net.leaf i).step inputs (start.leaves i)).2 ∧
      state.steps i = start.steps i + 1 ∧ state.previousRequestId i = requestId ∧
      state.cachedOutput i = net.meaning inputs start.leaves i ∧
      (net.meaning inputs start.leaves i).isSome

/-- What holds at any time during a tick that began in the state `start`. -/
structure TickInvariant (net : LeafNetwork ι Inputs τ Signal) (inputs : Inputs) (requestId : ρ)
    (start state : NetworkState ι ρ (ι → τ) Signal) : Prop where
  /-- A cache that is filled in this tick holds the meaning of its node. -/
  cached : ∀ i, state.previousRequestId i = requestId →
    state.cachedOutput i = none ∨
      state.cachedOutput i = net.meaning inputs start.leaves i
  leaf : ∀ i, start.LeafInvariant net inputs requestId state i
  /-- Other caches are those of the start, or cleared. -/
  others : ∀ i, state.previousRequestId i = requestId ∨
    state.previousRequestId i = start.previousRequestId i ∧
      (state.cachedOutput i = start.cachedOutput i ∨ state.cachedOutput i = none)

/-- What a query of `i` in the given state returns and leaves behind. -/
structure Answers (net : LeafNetwork ι Inputs τ Signal) (inputs : Inputs) (requestId : ρ)
    (start : NetworkState ι ρ (ι → τ) Signal) (i : ι)
    (state : NetworkState ι ρ (ι → τ) Signal)
    (result : Option Signal × NetworkState ι ρ (ι → τ) Signal) : Prop where
  value : result.1 = net.meaning inputs start.leaves i
  invariant : TickInvariant net inputs requestId start result.2
  /-- Leaves that the answer does not ask for keep their state. -/
  frame : ∀ j, ¬net.Demands inputs start.leaves i j →
    result.2.leaves j = state.leaves j ∧ result.2.steps j = state.steps j

/-- No cache is filled under one of the given request objects. -/
def NetworkState.Fresh (requests : List ρ) (state : NetworkState ι ρ (ι → τ) Signal) : Prop :=
  ∀ requestId ∈ requests, ∀ i, state.previousRequestId i = requestId →
    state.cachedOutput i = none

section Start

variable {net : LeafNetwork ι Inputs τ Signal}

theorem TickInvariant.start {inputs : Inputs} {requestId : ρ}
    {state : NetworkState ι ρ (ι → τ) Signal} (fresh : state.Fresh [requestId]) :
    TickInvariant net inputs requestId state state where
  cached i previousEq := Or.inl (fresh requestId (List.mem_singleton_self _) i previousEq)
  leaf _ := Or.inl ⟨rfl, fun _ => rfl⟩
  others _ := Or.inr ⟨rfl, Or.inl rfl⟩

/-- A tick leaves the caches of later requests empty. -/
theorem TickInvariant.fresh {inputs : Inputs} {requestId : ρ}
    {start state : NetworkState ι ρ (ι → τ) Signal}
    (invariant : TickInvariant net inputs requestId start state) {requests : List ρ}
    (fresh : start.Fresh requests) (distinct : requestId ∉ requests) :
    state.Fresh requests := by
  intro other otherMem i previousEq
  rcases invariant.others i with current | ⟨sameRequest, kept | cleared⟩
  · exact absurd (current.symm.trans previousEq ▸ otherMem) distinct
  · rw [kept]
    exact fresh other otherMem i (sameRequest.symm.trans previousEq)
  · exact cleared

end Start

section Tick

variable {net : LeafNetwork ι Inputs τ Signal} {inputs : Inputs} {requestId : ρ}
  {start state : NetworkState ι ρ (ι → τ) Signal} {i : ι}

theorem Answers.frame_trans {j k l : ι} {middle : NetworkState ι ρ (ι → τ) Signal}
    {last : Option Signal × NetworkState ι ρ (ι → τ) Signal} {value : Option Signal}
    (first : Answers net inputs requestId start j state (value, middle))
    (second : Answers net inputs requestId start k middle last)
    (notFirst : ¬net.Demands inputs start.leaves j l)
    (notSecond : ¬net.Demands inputs start.leaves k l) :
    last.2.leaves l = state.leaves l ∧ last.2.steps l = state.steps l := by
  rcases first.frame l notFirst with ⟨firstLeaves, firstSteps⟩
  rcases second.frame l notSecond with ⟨secondLeaves, secondSteps⟩
  exact ⟨secondLeaves.trans firstLeaves, secondSteps.trans firstSteps⟩

variable [DecidableEq ι]

def LeafNetwork.toNetwork (net : LeafNetwork ι Inputs τ Signal) :
    Network ι Inputs (ι → τ) Signal where
  node := net.node
  internal i inputs leaves :=
    ((net.leaf i).step inputs (leaves i) |>.1,
      Function.update leaves i ((net.leaf i).step inputs (leaves i)).2)
  rank := net.rank
  acyclic := net.acyclic

@[simp]
theorem remember_leaves (output : Option Signal) :
    (state.remember i requestId output).leaves = state.leaves := rfl

@[simp]
theorem remember_steps (output : Option Signal) :
    (state.remember i requestId output).steps = state.steps := rfl

theorem TickInvariant.remember (invariant : TickInvariant net inputs requestId start state)
    {output : Option Signal} (outputEq : output = net.meaning inputs start.leaves i) :
    TickInvariant net inputs requestId start (state.remember i requestId output) := by
  subst outputEq
  constructor
  · intro j filled
    by_cases here : j = i
    · subst here
      simp [NetworkState.remember]
    · have previousEq : state.previousRequestId j = requestId := by
        simpa [NetworkState.remember, Function.update_of_ne here] using filled
      simpa [NetworkState.remember, Function.update_of_ne here] using
        invariant.cached j previousEq
  · intro j
    rcases invariant.leaf j with untouched | ⟨leavesEq, stepsEq, previousEq, cachedEq, answers⟩
    · exact Or.inl untouched
    · refine Or.inr ⟨leavesEq, stepsEq, ?_, ?_, answers⟩
      · by_cases here : j = i
        · subst here
          simp [NetworkState.remember]
        · simpa [NetworkState.remember, Function.update_of_ne here] using previousEq
      · by_cases here : j = i
        · subst here
          simp [NetworkState.remember]
        · simpa [NetworkState.remember, Function.update_of_ne here] using cachedEq
  · intro j
    by_cases here : j = i
    · subst here
      exact Or.inl (by simp [NetworkState.remember])
    · simpa [NetworkState.remember, Function.update_of_ne here] using invariant.others j

/-- What `getOutputInternal` of `i` returns and leaves behind, before it is remembered. -/
structure InternalAnswers (net : LeafNetwork ι Inputs τ Signal) (inputs : Inputs) (requestId : ρ)
    (start : NetworkState ι ρ (ι → τ) Signal) (i : ι)
    (state : NetworkState ι ρ (ι → τ) Signal)
    (result : Option Signal × NetworkState ι ρ (ι → τ) Signal) : Prop where
  value : result.1 = net.meaning inputs start.leaves i
  remembered : TickInvariant net inputs requestId start (result.2.remember i requestId result.1)
  frame : ∀ j, ¬net.Demands inputs start.leaves i j →
    result.2.leaves j = state.leaves j ∧ result.2.steps j = state.steps j

theorem TickInvariant.stepLeaf (invariant : TickInvariant net inputs requestId start state)
    (node : net.node i = .leaf) (empty : state.cachedOutput i = none) :
    InternalAnswers net inputs requestId start i state
      (state.stepLeaf i (net.toNetwork.internal i inputs state.leaves)) := by
  have other : ∀ j, ¬net.Demands inputs start.leaves i j → j ≠ i := by
    rintro j notDemanded rfl
    exact notDemanded (.self j)
  have untouched : state.leaves i = start.leaves i ∧
      ((net.meaning inputs start.leaves i).isSome → state.steps i = start.steps i) := by
    rcases invariant.leaf i with untouched | ⟨-, -, -, cachedEq, answers⟩
    · exact untouched
    · rw [← cachedEq, empty] at answers
      cases answers
  have meaningEq : net.meaning inputs start.leaves i =
      ((net.leaf i).step inputs (start.leaves i)).1 := net.meaning_leaf node
  have quiet := (net.leaf i).quiet inputs (start.leaves i)
  have stepEq : net.toNetwork.internal i inputs state.leaves =
      (((net.leaf i).step inputs (start.leaves i)).1,
        Function.update state.leaves i ((net.leaf i).step inputs (start.leaves i)).2) := by
    rw [← untouched.1]
    rfl
  rw [stepEq]
  generalize stepped : (net.leaf i).step inputs (start.leaves i) = step at meaningEq quiet
  rcases step with ⟨output, own⟩
  cases output with
  | none =>
      have unchanged : own = start.leaves i := quiet rfl
      have same : Function.update state.leaves i own = state.leaves := by
        rw [unchanged, ← untouched.1, Function.update_eq_self]
      have remembered := invariant.remember meaningEq.symm
      refine ⟨meaningEq.symm, ⟨remembered.cached, fun j => ?_, remembered.others⟩,
        fun j notDemanded => ?_⟩
      · by_cases here : j = i
        · subst here
          left
          simp [NetworkState.stepLeaf, same, untouched.1, meaningEq]
        · have kept := remembered.leaf j
          simpa [NetworkState.LeafInvariant, NetworkState.stepLeaf, NetworkState.remember,
            same, Function.update_of_ne here] using kept
      · simp [NetworkState.stepLeaf, same, Function.update_of_ne (other j notDemanded)]
  | some signal =>
      have remembered := invariant.remember meaningEq.symm
      refine ⟨meaningEq.symm, ⟨remembered.cached, fun j => ?_, remembered.others⟩,
        fun j notDemanded => ?_⟩
      · by_cases here : j = i
        · subst here
          right
          have stepsEq : state.steps j = start.steps j := untouched.2 (by rw [meaningEq]; rfl)
          simp [NetworkState.stepLeaf, NetworkState.remember, stepsEq, meaningEq, stepped]
        · have kept := remembered.leaf j
          simpa [NetworkState.LeafInvariant, NetworkState.stepLeaf, NetworkState.remember,
            Function.update_of_ne here] using kept
      · simp [NetworkState.stepLeaf, Function.update_of_ne (other j notDemanded)]

theorem InternalAnswers.of_slave {slave master : ι} {middle : NetworkState ι ρ (ι → τ) Signal}
    {last : Option Signal × NetworkState ι ρ (ι → τ) Signal}
    (node : net.node i = .subsumption slave master ∨ net.node i = .inhibition slave master)
    (first : Answers net inputs requestId start master state (none, middle))
    (second : Answers net inputs requestId start slave middle last) :
    InternalAnswers net inputs requestId start i state last := by
  have silent : net.meaning inputs start.leaves master = none := first.value.symm
  have value : last.1 = net.meaning inputs start.leaves i :=
    second.value.trans (net.meaning_of_silent node silent).symm
  exact ⟨value, second.invariant.remember value, fun j notDemanded =>
    first.frame_trans second (fun demanded => notDemanded (.master node demanded))
      fun demanded => notDemanded (.slave node silent demanded)⟩

variable [DecidableEq ρ]

theorem forget_of_eq (same : requestId = state.previousRequestId i) :
    state.forget i requestId = state :=
  if_pos same

theorem forget_of_ne (different : requestId ≠ state.previousRequestId i) :
    state.forget i requestId =
      { state with cachedOutput := Function.update state.cachedOutput i none } :=
  if_neg different

@[simp]
theorem forget_leaves : (state.forget i requestId).leaves = state.leaves := by
  rw [NetworkState.forget]
  split <;> rfl

@[simp]
theorem forget_steps : (state.forget i requestId).steps = state.steps := by
  rw [NetworkState.forget]
  split <;> rfl

theorem TickInvariant.forget (invariant : TickInvariant net inputs requestId start state)
    (i : ι) : TickInvariant net inputs requestId start (state.forget i requestId) := by
  by_cases same : requestId = state.previousRequestId i
  · rwa [forget_of_eq same]
  rw [forget_of_ne same]
  constructor
  · intro j filled
    by_cases here : j = i
    · subst here
      simp
    · simpa [Function.update_of_ne here] using invariant.cached j filled
  · intro j
    rcases invariant.leaf j with untouched | ⟨leavesEq, stepsEq, previousEq, cachedEq, answers⟩
    · exact Or.inl untouched
    · have elsewhere : j ≠ i := by
        rintro rfl
        exact same previousEq.symm
      exact Or.inr ⟨leavesEq, stepsEq, previousEq,
        by simpa [Function.update_of_ne elsewhere] using cachedEq, answers⟩
  · intro j
    rcases invariant.others j with previousEq | ⟨previousEq, cachedEq⟩
    · exact Or.inl previousEq
    · by_cases here : j = i
      · subst here
        exact Or.inr ⟨previousEq, Or.inr (by simp)⟩
      · exact Or.inr ⟨previousEq, by simpa [Function.update_of_ne here] using cachedEq⟩

theorem TickInvariant.cached_of_forget
    (invariant : TickInvariant net inputs requestId start state) {signal : Signal}
    (filled : (state.forget i requestId).cachedOutput i = some signal) :
    some signal = net.meaning inputs start.leaves i := by
  by_cases same : requestId = state.previousRequestId i
  · rw [forget_of_eq same] at filled
    rcases invariant.cached i same.symm with empty | cachedEq
    · rw [empty] at filled
      cases filled
    · rw [← filled, cachedEq]
  · rw [forget_of_ne same] at filled
    simp at filled

theorem TickInvariant.getOutputInternal
    (invariant : TickInvariant net inputs requestId start state)
    (empty : state.cachedOutput i = none)
    (query : ∀ {j : ι} {state : NetworkState ι ρ (ι → τ) Signal}, net.rank j < net.rank i →
      TickInvariant net inputs requestId start state →
      Answers net inputs requestId start j state
        (net.toNetwork.getOutput inputs requestId j state)) :
    InternalAnswers net inputs requestId start i state
      (net.toNetwork.getOutputInternal inputs i
        (fun j _ state => net.toNetwork.getOutput inputs requestId j state) state) := by
  have below : ∀ j ∈ (net.node i).inputs, net.rank j < net.rank i := net.acyclic i
  cases node : net.node i with
  | leaf =>
      rw [Network.getOutputInternal_leaf node]
      exact invariant.stepLeaf node empty
  | dummy input =>
      rw [Network.getOutputInternal_dummy node]
      have answers := query (below input (by simp [node, Node.inputs])) invariant
      have value := answers.value.trans (net.meaning_dummy node).symm
      exact ⟨value, answers.invariant.remember value, fun j notDemanded =>
        answers.frame j fun demanded => notDemanded (.input node demanded)⟩
  | subsumption slave master =>
      rw [Network.getOutputInternal_subsumption node]
      have masterBelow := below master (by simp [node, Node.inputs])
      have first := query masterBelow invariant
      dsimp only
      generalize net.toNetwork.getOutput inputs requestId master state = result at first ⊢
      rcases result with ⟨_ | signal, middle⟩
      · have second := query (below slave (by simp [node, Node.inputs])) first.invariant
        exact .of_slave (Or.inl node) first second
      · have second := query masterBelow first.invariant
        rw [if_pos Option.isSome_some]
        have value := second.value.trans
          ((net.meaning_subsumption node).trans (by rw [← first.value]; rfl)).symm
        exact ⟨value, second.invariant.remember value, fun j notDemanded =>
          first.frame_trans second
            (fun demanded => notDemanded (.master (Or.inl node) demanded))
            fun demanded => notDemanded (.master (Or.inl node) demanded)⟩
  | inhibition slave master =>
      rw [Network.getOutputInternal_inhibition node]
      have first := query (below master (by simp [node, Node.inputs])) invariant
      dsimp only
      generalize net.toNetwork.getOutput inputs requestId master state = result at first ⊢
      rcases result with ⟨_ | signal, middle⟩
      · have second := query (below slave (by simp [node, Node.inputs])) first.invariant
        exact .of_slave (Or.inr node) first second
      · have value : none = net.meaning inputs start.leaves i := by
          rw [net.meaning_inhibition node, ← first.value]
          rfl
        exact ⟨value, first.invariant.remember value, fun j notDemanded =>
          first.frame j fun demanded => notDemanded (.master (Or.inr node) demanded)⟩

/-- A query returns the meaning of its node, at any time during the tick. -/
theorem getOutput_answers (invariant : TickInvariant net inputs requestId start state) (i : ι) :
    Answers net inputs requestId start i state
      (net.toNetwork.getOutput inputs requestId i state) := by
  induction bound : net.rank i using Nat.strongRecOn generalizing i state with
  | ind size ih =>
      subst bound
      have forgotten := invariant.forget i
      rw [Network.getOutput]
      cases filled : (state.forget i requestId).cachedOutput i with
      | some signal =>
          exact ⟨invariant.cached_of_forget filled, forgotten, fun j _ => ⟨by simp, by simp⟩⟩
      | none =>
          have answers := forgotten.getOutputInternal filled
            fun {j _} below invariant => ih (net.rank j) below invariant j rfl
          exact ⟨answers.value, answers.remembered, by simpa using answers.frame⟩

end Tick

section Runs

variable [DecidableEq ι] [DecidableEq ρ] {net : LeafNetwork ι Inputs τ Signal}

/-- The queries of a tick, in any order and number. -/
theorem getOutputs_answers {inputs : Inputs} {requestId : ρ}
    {start state : NetworkState ι ρ (ι → τ) Signal}
    (invariant : TickInvariant net inputs requestId start state) (queries : List ι) :
    let result := net.toNetwork.getOutputs inputs requestId queries state
    result.1 = queries.map (net.meaning inputs start.leaves) ∧
      TickInvariant net inputs requestId start result.2 ∧
      ∀ j, (∀ i ∈ queries, ¬net.Demands inputs start.leaves i j) →
        result.2.leaves j = state.leaves j ∧ result.2.steps j = state.steps j := by
  induction queries generalizing state with
  | nil => exact ⟨rfl, invariant, fun _ _ => ⟨rfl, rfl⟩⟩
  | cons i rest ih =>
      have first := getOutput_answers invariant i
      rcases ih first.invariant with ⟨values, later, frame⟩
      refine ⟨?_, later, fun j notDemanded => ?_⟩
      · rw [List.map_cons, ← values, ← first.value]
        rfl
      · rcases first.frame j (notDemanded i List.mem_cons_self) with ⟨leavesEq, stepsEq⟩
        rcases frame j fun k kMem => notDemanded k (List.mem_cons_of_mem i kMem) with
          ⟨restLeaves, restSteps⟩
        exact ⟨restLeaves.trans leavesEq, restSteps.trans stepsEq⟩

/-- When request objects are distinct, each tick of a run starts with empty caches. -/
theorem run_fresh {state : NetworkState ι ρ (ι → τ) Signal} {before after : List (Tick ι ρ Inputs)}
    (distinct : ((before ++ after).map Tick.requestId).Nodup)
    (fresh : state.Fresh ((before ++ after).map Tick.requestId)) :
    (net.toNetwork.run before state).Fresh (after.map Tick.requestId) := by
  induction before generalizing state with
  | nil => exact fresh
  | cons tick rest ih =>
      rw [List.cons_append, List.map_cons] at distinct fresh
      rw [List.nodup_cons] at distinct
      have now : state.Fresh [tick.requestId] := fun requestId requestMem =>
        fresh requestId (by rw [List.mem_singleton.mp requestMem]; exact List.mem_cons_self)
      have later : state.Fresh ((rest ++ after).map Tick.requestId) := fun requestId requestMem =>
        fresh requestId (List.mem_cons_of_mem _ requestMem)
      have started : TickInvariant net tick.inputs tick.requestId state state :=
        TickInvariant.start now
      have ended := (getOutputs_answers started tick.queries).2.1
      exact ih distinct.2 (ended.fresh later distinct.1)

/-- In every tick of a run the queries return the meaning of their nodes, a leaf that answers
takes its internal step at most once, and leaves that no query asks for keep their state. -/
theorem run_tick (net : LeafNetwork ι Inputs τ Signal) (initialId : ρ) (leaves : ι → τ)
    {before after : List (Tick ι ρ Inputs)} {tick : Tick ι ρ Inputs}
    (distinct : ((before ++ tick :: after).map Tick.requestId).Nodup) :
    let start := net.toNetwork.run before (NetworkState.initial initialId leaves)
    let result := net.toNetwork.getOutputs tick.inputs tick.requestId tick.queries start
    result.1 = tick.queries.map (net.meaning tick.inputs start.leaves) ∧
      (∀ i, (net.meaning tick.inputs start.leaves i).isSome →
        result.2.steps i ≤ start.steps i + 1) ∧
      ∀ j, (∀ i ∈ tick.queries, ¬net.Demands tick.inputs start.leaves i j) →
        result.2.leaves j = start.leaves j := by
  intro start result
  have fresh : start.Fresh ((tick :: after).map Tick.requestId) :=
    run_fresh distinct fun _ _ _ _ => rfl
  have now : start.Fresh [tick.requestId] := fun requestId requestMem =>
    fresh requestId (by rw [List.mem_singleton.mp requestMem]; exact List.mem_cons_self)
  have started : TickInvariant net tick.inputs tick.requestId start start :=
    TickInvariant.start now
  rcases getOutputs_answers started tick.queries with ⟨values, ended, frame⟩
  refine ⟨values, fun i answers => ?_, fun j notDemanded => (frame j notDemanded).1⟩
  rcases ended.leaf i with ⟨-, untouched⟩ | ⟨-, once, -⟩
  · exact (untouched answers).trans_le (Nat.le_succ _)
  · exact once.le

end Runs

end Meaning

end MrsOptimization
