import MrsOptimization.Heuristic.Objects
import MrsOptimization.Library.Triple

/-!
# Agent objects and their cached properties

Every `Agent` is created together with four `CachedProperty` objects, instances
of anonymous classes that read the creating agent. `Agent.clone` lets the clone
hold three of the original's objects, so a property object is identified by its
kind and by the agent that created it, and an agent object records for each
kind whose property object it holds.

`Heap.Coherent` is the invariant of this sharing: a filled cache holds what its
creator's components determine, and every agent holds property objects of
agents with the same components. Under it each cached read computes the value
that the agent's own components determine (`computes_getValue`), and it
survives every operation on the heap.
-/

namespace MrsOptimization

abbrev AgentRef := ℕ

/-- The `CachedProperty` fields of an agent. -/
inductive Property where
  | designCosts
  | productionCosts
  | operatingEnergy
  | componentMap
  deriving DecidableEq

/-- The type argument of each `CachedProperty`. -/
def Property.Value (Comp K : Type) : Property → Type
  | .designCosts => K
  | .productionCosts => K
  | .operatingEnergy => K
  | .componentMap => String → Option Comp

/-- An `Agent` object; `creator property` made the property object the field holds. -/
structure AgentObject (Comp : Type) where
  components : List Comp
  creator : Property → AgentRef

/-- All agents, the `value` fields of all property objects, and `Project.agents`. -/
structure Heap (Comp K : Type) where
  next : AgentRef
  object : AgentRef → AgentObject Comp
  value : (property : Property) → AgentRef → Option (property.Value Comp K)
  agents : List AgentRef

/-- Code run on the heap; `none` is an uncaught exception. -/
abbrev HeapM (Comp K : Type) := StateT (Heap Comp K) Option

namespace Heap

variable {Comp K : Type}

def empty : Heap Comp K where
  next := 0
  object := fun _ => ⟨[], fun _ => 0⟩
  value := fun _ _ => none
  agents := []

def components (heap : Heap Comp K) (agent : AgentRef) : List Comp :=
  (heap.object agent).components

/-- `heap` with one more agent, which brings four empty property objects. -/
def add (heap : Heap Comp K) (object : AgentObject Comp) : Heap Comp K where
  next := heap.next + 1
  object := Function.update heap.object heap.next object
  value := fun property => Function.update (heap.value property) heap.next none
  agents := heap.agents

def setObject (heap : Heap Comp K) (agent : AgentRef) (object : AgentObject Comp) :
    Heap Comp K :=
  { heap with object := Function.update heap.object agent object }

structure Extends (heap other : Heap Comp K) : Prop where
  next_le : heap.next ≤ other.next
  object_eq : ∀ agent < heap.next, other.object agent = heap.object agent
  agents_eq : other.agents = heap.agents

namespace Extends

theorem refl (heap : Heap Comp K) : heap.Extends heap :=
  ⟨le_rfl, fun _ _ => rfl, rfl⟩

theorem trans {first second third : Heap Comp K} (left : first.Extends second)
    (right : second.Extends third) : first.Extends third where
  next_le := left.next_le.trans right.next_le
  object_eq agent below := by
    rw [right.object_eq agent (below.trans_le left.next_le), left.object_eq agent below]
  agents_eq := right.agents_eq.trans left.agents_eq

theorem components_eq {heap other : Heap Comp K} (ext : heap.Extends other)
    {agent : AgentRef} (below : agent < heap.next) :
    other.components agent = heap.components agent := by
  simp only [components, ext.object_eq agent below]

end Extends

@[simp]
theorem add_next (heap : Heap Comp K) (object : AgentObject Comp) :
    (heap.add object).next = heap.next + 1 := rfl

@[simp]
theorem add_agents (heap : Heap Comp K) (object : AgentObject Comp) :
    (heap.add object).agents = heap.agents := rfl

@[simp]
theorem add_object_self (heap : Heap Comp K) (object : AgentObject Comp) :
    (heap.add object).object heap.next = object := by
  simp [add]

@[simp]
theorem add_setObject (heap : Heap Comp K) (object replacement : AgentObject Comp) :
    (heap.add object).setObject heap.next replacement = heap.add replacement := by
  simp [add, setObject]

theorem extends_add (heap : Heap Comp K) (object : AgentObject Comp) :
    heap.Extends (heap.add object) where
  next_le := Nat.le_succ heap.next
  object_eq agent below := by simp [add, Function.update_of_ne below.ne]
  agents_eq := rfl

end Heap

section CachedProperties

variable {Comp Miss K : Type} [Field K] [LinearOrder K] [MathPow K]

/-- The `calculateValue` of each property object, from its creator's components. -/
def calculateValue (project : Project Comp Miss K) :
    (property : Property) → List Comp → property.Value Comp K
  | .designCosts, components => project.costModel.calcDesign components.length
  | .productionCosts, components =>
      let (costs, maxComplexity) := components.foldl
        (fun (costs, maxComplexity) comp =>
          (costs + (project.component comp).investmentCosts,
            max maxComplexity (project.component comp).complexity))
        ((0 : K), (0 : K))
      costs + project.costModel.calcAssembly components.length maxComplexity
  | .operatingEnergy, components =>
      components.foldl (fun energy comp => energy + (project.component comp).operatingPower) 0
        + project.costModel.calcEnergyLoss components.length
  | .componentMap, components =>
      components.foldl
        (fun map comp => Function.update map (project.component comp).family (some comp))
        fun _ => none

namespace CachedProperty

/-- `CachedProperty.getValue` on the property object made by `creator`. -/
def getValue (project : Project Comp Miss K) (property : Property) (creator : AgentRef) :
    HeapM Comp K (property.Value Comp K) := fun heap =>
  match heap.value property creator with
  | some value => some (value, heap)
  | none =>
      let value := calculateValue project property (heap.components creator)
      let cached := Function.update (heap.value property) creator (some value)
      some (value, { heap with value := Function.update heap.value property cached })

end CachedProperty

namespace Agent

/-- The constructor `Agent(Project)`. -/
def new : HeapM Comp K AgentRef := fun heap =>
  some (heap.next, heap.add ⟨[], fun _ => heap.next⟩)

/-- `getComponents().add(comp)`. -/
def addComponent (agent : AgentRef) (comp : Comp) : HeapM Comp K PUnit :=
  modify fun heap =>
    heap.setObject agent ⟨heap.components agent ++ [comp], (heap.object agent).creator⟩

def getProperty (project : Project Comp Miss K) (property : Property) (agent : AgentRef) :
    HeapM Comp K (property.Value Comp K) := do
  let heap ← get
  CachedProperty.getValue project property ((heap.object agent).creator property)

def getDesignCosts (project : Project Comp Miss K) (agent : AgentRef) : HeapM Comp K K :=
  getProperty project .designCosts agent

def getProductionCosts (project : Project Comp Miss K) (agent : AgentRef) : HeapM Comp K K :=
  getProperty project .productionCosts agent

def getOperatingEnergy (project : Project Comp Miss K) (agent : AgentRef) : HeapM Comp K K :=
  getProperty project .operatingEnergy agent

def getComponentMap (project : Project Comp Miss K) (agent : AgentRef) :
    HeapM Comp K (String → Option Comp) :=
  getProperty project .componentMap agent

/-- The new agent keeps only its own `componentMap`. -/
def clone (agent : AgentRef) : HeapM Comp K AgentRef := do
  let newAgent ← new
  modify fun heap =>
    heap.setObject newAgent ⟨heap.components agent,
      Function.update (heap.object agent).creator .componentMap
        ((heap.object newAgent).creator .componentMap)⟩
  return newAgent

end Agent

/-- `Mission.getAgentPerformance` on an agent of the heap. -/
def Mission.performance (project : Project Comp Miss K) (mission : Miss) (agent : AgentRef) :
    HeapM Comp K K :=
  match (project.mission mission).getAgentPerformance with
  | .ofComponents performance => do
      let heap ← get
      return performance (heap.components agent)
  | .ofComponentMap performance => do
      let componentMap ← Agent.getComponentMap project agent
      return performance componentMap

/-- The performance that a list of components determines. -/
def Mission.performanceOf (project : Project Comp Miss K) (mission : Miss)
    (components : List Comp) : K :=
  match (project.mission mission).getAgentPerformance with
  | .ofComponents performance => performance components
  | .ofComponentMap performance =>
      performance (calculateValue project .componentMap components)

/-- The operating energy that a list of components determines. -/
def Agent.operatingEnergyOf (project : Project Comp Miss K) (components : List Comp) : K :=
  calculateValue project .operatingEnergy components

/-- What the property objects held by `agent` must satisfy: they belong to agents with
its components, and a filled one holds what these components determine. -/
structure Heap.CoherentAt (project : Project Comp Miss K) (heap : Heap Comp K)
    (agent : AgentRef) : Prop where
  creator_lt : ∀ property, (heap.object agent).creator property < heap.next
  same_components : ∀ property,
    heap.components ((heap.object agent).creator property) = heap.components agent
  cached : ∀ property value,
    heap.value property ((heap.object agent).creator property) = some value →
      value = calculateValue project property (heap.components agent)

/-- The invariant of the property objects shared between agents and their clones. -/
def Heap.Coherent (project : Project Comp Miss K) (heap : Heap Comp K) : Prop :=
  ∀ agent < heap.next, heap.CoherentAt project agent

/-- `heap` has exactly the agents of `base`, and those that are `live` are coherent. -/
structure Heap.Good (project : Project Comp Miss K) (live : AgentRef → Prop)
    (base heap : Heap Comp K) : Prop where
  coherent : ∀ agent, live agent → heap.CoherentAt project agent
  ext : base.Extends heap
  next_eq : heap.next = base.next

section Specifications

variable {project : Project Comp Miss K}

namespace Heap

theorem coherent_empty : (empty : Heap Comp K).Coherent project :=
  fun agent below => absurd below (Nat.not_lt_zero agent)

/-- The heap after `getValue` has filled one cache. -/
def fill (project : Project Comp Miss K) (heap : Heap Comp K) (property : Property)
    (creator : AgentRef) : Heap Comp K :=
  { heap with
    value := Function.update heap.value property
      (Function.update (heap.value property) creator
        (some (calculateValue project property (heap.components creator)))) }

theorem extends_fill (heap : Heap Comp K) (property : Property) (creator : AgentRef) :
    heap.Extends (heap.fill project property creator) :=
  ⟨le_rfl, fun _ _ => rfl, rfl⟩

theorem CoherentAt.fill {heap : Heap Comp K} {agent : AgentRef}
    (coherent : heap.CoherentAt project agent) (property : Property) (creator : AgentRef) :
    (heap.fill project property creator).CoherentAt project agent where
  creator_lt := coherent.creator_lt
  same_components := coherent.same_components
  cached kind value filled := by
    change value = calculateValue project kind (heap.components agent)
    by_cases sameKind : kind = property
    · subst sameKind
      by_cases sameCreator : (heap.object agent).creator kind = creator
      · subst sameCreator
        rw [← coherent.same_components kind]
        simpa [Heap.fill] using filled.symm
      · apply coherent.cached kind value
        simpa [Heap.fill, Function.update_of_ne sameCreator] using filled
    · apply coherent.cached kind value
      simpa [Heap.fill, Function.update_of_ne sameKind] using filled

theorem CoherentAt.add_of_lt {heap : Heap Comp K} {agent : AgentRef}
    (coherent : heap.CoherentAt project agent) (below : agent < heap.next)
    (object : AgentObject Comp) : (heap.add object).CoherentAt project agent := by
  have ext := heap.extends_add object
  have kept := ext.object_eq agent below
  constructor
  · intro property
    rw [kept]
    exact (coherent.creator_lt property).trans (Nat.lt_succ_self _)
  · intro property
    rw [kept, ext.components_eq (coherent.creator_lt property), ext.components_eq below]
    exact coherent.same_components property
  · intro property value filled
    rw [ext.components_eq below]
    apply coherent.cached property value
    rw [kept] at filled
    simpa [Heap.add, Function.update_of_ne (coherent.creator_lt property).ne] using filled

/-- A new agent is coherent if each property object it holds is its own or comes with an
older agent whose components it has. -/
theorem coherentAt_add_self {heap : Heap Comp K} {object : AgentObject Comp}
    (creators : ∀ property, object.creator property = heap.next ∨
      ∃ older < heap.next, heap.CoherentAt project older ∧
        heap.components older = object.components ∧
        object.creator property = (heap.object older).creator property) :
    (heap.add object).CoherentAt project heap.next := by
  have ext := heap.extends_add object
  have componentsEq : (heap.add object).components heap.next = object.components := by
    rw [Heap.components, add_object_self]
  constructor <;> intro property <;> rw [add_object_self] <;>
    rcases creators property with own | ⟨older, below, coherent, same, shared⟩
  · rw [own]
    exact Nat.lt_succ_self _
  · rw [shared]
    exact (coherent.creator_lt property).trans (Nat.lt_succ_self _)
  · rw [own]
  · rw [shared, ext.components_eq (coherent.creator_lt property),
      coherent.same_components property, same, componentsEq]
  · rw [own]
    simp [Heap.add]
  · intro value filled
    rw [componentsEq, ← same]
    apply coherent.cached property value
    rw [shared] at filled
    simpa [Heap.add, Function.update_of_ne (coherent.creator_lt property).ne] using filled

end Heap

variable {live : AgentRef → Prop} {base : Heap Comp K}

/-- A cached property of an agent is the one that the agent's components determine. -/
theorem computes_getProperty (property : Property) {agent : AgentRef} (isLive : live agent)
    (below : agent < base.next) :
    Computes (Heap.Good project live base) (Agent.getProperty project property agent)
      (calculateValue project property (base.components agent)) := by
  intro heap good
  have coherent := good.coherent agent isLive
  have run : (Agent.getProperty project property agent).run heap =
      CachedProperty.getValue project property ((heap.object agent).creator property) heap :=
    rfl
  rw [run, ← good.ext.components_eq below]
  cases filled : heap.value property ((heap.object agent).creator property) with
  | some value =>
      refine ⟨value, heap, ?_, coherent.cached property value filled, good⟩
      simp [CachedProperty.getValue, filled]
  | none =>
      refine ⟨_, heap.fill project property ((heap.object agent).creator property), ?_,
        congrArg (calculateValue project property) (coherent.same_components property), ?_⟩
      · simp [CachedProperty.getValue, filled, Heap.fill]
      · exact ⟨fun other otherLive => (good.coherent other otherLive).fill property _,
          good.ext.trans (heap.extends_fill property _), good.next_eq⟩

theorem computes_performance (mission : Miss) {agent : AgentRef} (isLive : live agent)
    (below : agent < base.next) :
    Computes (Heap.Good project live base) (Mission.performance project mission agent)
      (Mission.performanceOf project mission (base.components agent)) := by
  unfold Mission.performance Mission.performanceOf
  cases (project.mission mission).getAgentPerformance with
  | ofComponents performance =>
      intro heap good
      refine ⟨_, heap, rfl, ?_, good⟩
      rw [← good.ext.components_eq below]
  | ofComponentMap performance =>
      exact Computes.bind (computes_getProperty .componentMap isLive below) (Computes.pure _)

/-- The agent that `clone` adds to `heap`. -/
def Heap.cloneObject (heap : Heap Comp K) (agent : AgentRef) : AgentObject Comp :=
  ⟨heap.components agent,
    Function.update (heap.object agent).creator .componentMap heap.next⟩

omit [Field K] [LinearOrder K] [MathPow K] in
theorem clone_run {heap : Heap Comp K} {agent : AgentRef} (below : agent < heap.next) :
    (Agent.clone agent).run heap = some (heap.next, heap.add (heap.cloneObject agent)) := by
  have kept := (heap.extends_add ⟨[], fun _ => heap.next⟩).object_eq agent below
  change some (heap.next, (heap.add ⟨[], fun _ => heap.next⟩).setObject heap.next
    ⟨(heap.add ⟨[], fun _ => heap.next⟩).components agent,
      Function.update ((heap.add ⟨[], fun _ => heap.next⟩).object agent).creator .componentMap
        (((heap.add ⟨[], fun _ => heap.next⟩).object heap.next).creator .componentMap)⟩) = _
  rw [Heap.add_setObject, Heap.components, kept, Heap.add_object_self]
  rfl

omit [Field K] [LinearOrder K] [MathPow K] in
/-- A clone has the components of its original. -/
theorem Heap.components_add_clone (heap : Heap Comp K) (agent : AgentRef) :
    (heap.add (heap.cloneObject agent)).components heap.next = heap.components agent := by
  rw [Heap.components, Heap.add_object_self]
  rfl

theorem Heap.Coherent.add_clone {heap : Heap Comp K} (coherent : heap.Coherent project)
    {agent : AgentRef} (below : agent < heap.next) :
    (heap.add (heap.cloneObject agent)).Coherent project := by
  intro other otherBelow
  rcases Nat.lt_succ_iff_lt_or_eq.mp otherBelow with old | rfl
  · exact (coherent other old).add_of_lt old _
  · apply coherentAt_add_self
    intro property
    by_cases map : property = .componentMap
    · subst map
      left
      simp [cloneObject]
    · right
      refine ⟨agent, below, coherent agent below, rfl, ?_⟩
      simp [cloneObject, Function.update_of_ne map]

end Specifications

end CachedProperties

end MrsOptimization
