import MrsOptimization.Library.Subsequences
import Mathlib.Data.Finset.Card
import Mathlib.Data.Finset.Union

/-!
# The tree of component combinations

`SolutionTreeNode` is a Swing tree node whose children are created when they are first
counted: one for each component left in its list of candidates. The functional units
and the solution of a node are computed through its parents and cached.

The nodes of a tree are numbered in the order of their creation. A tree carries the
facts that make its walks end: parents are older and children are younger than a node.
-/

namespace MrsOptimization.Combinations

structure FunctionalUnit where
  value : Char
  deriving DecidableEq

/-- A component is a list of functional units, and compared as one. -/
abbrev Component := List FunctionalUnit

/-- A node; `parent` is absent when the parent is the root of the Swing tree, which is no
`SolutionTreeNode`. The field `candidates` keeps the first `childList`; no code reads it. -/
structure SolutionTreeNode where
  areChildrenDefined : Bool
  data : Component
  childList : List Component
  units : Option (Finset FunctionalUnit)
  solution : Option (List Component)
  parent : Option ℕ
  children : List ℕ
  candidates : List Component

namespace SolutionTreeNode

/-- The constructor takes the first component out of a list that it owns. -/
def new (compList : List Component) (nonempty : compList ≠ []) : SolutionTreeNode :=
  let data := compList.head nonempty
  let compList := compList.erase data
  { areChildrenDefined := false
    data := data
    childList := compList
    units := none
    solution := none
    parent := none
    children := []
    candidates := compList }

def shape (node : SolutionTreeNode) : SolutionTreeNode :=
  { node with units := none, solution := none }

section Shape

variable {node other : SolutionTreeNode}

theorem areChildrenDefined_eq (same : node.shape = other.shape) :
    node.areChildrenDefined = other.areChildrenDefined :=
  (SolutionTreeNode.mk.inj same).1

theorem data_eq (same : node.shape = other.shape) : node.data = other.data :=
  (SolutionTreeNode.mk.inj same).2.1

theorem childList_eq (same : node.shape = other.shape) : node.childList = other.childList :=
  (SolutionTreeNode.mk.inj same).2.2.1

theorem parent_eq (same : node.shape = other.shape) : node.parent = other.parent :=
  (SolutionTreeNode.mk.inj same).2.2.2.2.2.1

theorem children_eq (same : node.shape = other.shape) : node.children = other.children :=
  (SolutionTreeNode.mk.inj same).2.2.2.2.2.2.1

theorem candidates_eq (same : node.shape = other.shape) : node.candidates = other.candidates :=
  (SolutionTreeNode.mk.inj same).2.2.2.2.2.2.2

end Shape

end SolutionTreeNode

/-- The nodes created so far, and the children of the root. -/
structure SolutionTree where
  node : ℕ → SolutionTreeNode
  size : ℕ
  rootChildren : List ℕ
  parent_lt : ∀ r, ∀ p ∈ (node r).parent, p < r
  lt_child : ∀ r, ∀ c ∈ (node r).children, r < c ∧ c < size

namespace SolutionTree

def empty : SolutionTree where
  node _ := ⟨false, [], [], none, none, none, [], []⟩
  size := 0
  rootChildren := []
  parent_lt _ _ none := by cases none
  lt_child _ _ none := by cases none

/-- A write to the fields of a node that do not link it to others. -/
def modify (tree : SolutionTree) (r : ℕ) (write : SolutionTreeNode → SolutionTreeNode)
    (links : ∀ node, (write node).parent = node.parent ∧ (write node).children = node.children) :
    SolutionTree where
  node := Function.update tree.node r (write (tree.node r))
  size := tree.size
  rootChildren := tree.rootChildren
  parent_lt := by
    intro s p pParent
    by_cases here : s = r
    · subst here
      rw [Function.update_self, (links _).1] at pParent
      exact tree.parent_lt s p pParent
    · rw [Function.update_of_ne here] at pParent
      exact tree.parent_lt s p pParent
  lt_child := by
    intro s c cChild
    by_cases here : s = r
    · subst here
      rw [Function.update_self, (links _).2] at cChild
      exact tree.lt_child s c cChild
    · rw [Function.update_of_ne here] at cChild
      exact tree.lt_child s c cChild

/-- `add(new SolutionTreeNode(new ArrayList<Component>(compList), num))`, on a node or on the
root. -/
def add (tree : SolutionTree) (parent : Option ℕ) (valid : ∀ p ∈ parent, p < tree.size)
    (compList : List Component) (nonempty : compList ≠ []) : SolutionTree where
  node := fun r =>
    if r = tree.size then { SolutionTreeNode.new compList nonempty with parent := parent }
    else if some r = parent then
      { tree.node r with children := (tree.node r).children ++ [tree.size] }
    else tree.node r
  size := tree.size + 1
  rootChildren := if parent = none then tree.rootChildren ++ [tree.size] else tree.rootChildren
  parent_lt := by
    intro r p pParent
    split_ifs at pParent with created linked
    · rw [created]
      exact valid p pParent
    · exact tree.parent_lt r p pParent
    · exact tree.parent_lt r p pParent
  lt_child := by
    intro r c cChild
    split_ifs at cChild with created linked
    · cases cChild
    · rw [List.mem_append, List.mem_singleton] at cChild
      rcases cChild with older | rfl
      · exact (tree.lt_child r c older).imp_right Nat.lt_succ_of_lt
      · exact ⟨valid r linked.symm, Nat.lt_succ_self _⟩
    · exact (tree.lt_child r c cChild).imp_right Nat.lt_succ_of_lt

@[simp]
theorem add_size (tree : SolutionTree) (parent valid compList nonempty) :
    (tree.add parent valid compList nonempty).size = tree.size + 1 := rfl

/-- `childList.remove(0)`; the list of the root's children is not kept in a node. -/
def removeFirst (tree : SolutionTree) (parent : Option ℕ) : SolutionTree :=
  match parent with
  | none => tree
  | some p =>
      tree.modify p (fun node => { node with childList := node.childList.tail })
        fun _ => ⟨rfl, rfl⟩

@[simp]
theorem removeFirst_size (tree : SolutionTree) (parent : Option ℕ) :
    (tree.removeFirst parent).size = tree.size := by
  cases parent <;> rfl

/-- One iteration of the loops of `succeeded` and `defineChildNodes`. -/
def addFirst (tree : SolutionTree) (parent : Option ℕ) (valid : ∀ p ∈ parent, p < tree.size)
    (c : Component) (rest : List Component) : SolutionTree :=
  (tree.add parent valid (c :: rest) (List.cons_ne_nil c rest)).removeFirst parent

theorem addFirst_size (tree : SolutionTree) (parent : Option ℕ) (valid c rest) :
    (tree.addFirst parent valid c rest).size = tree.size + 1 := by
  rw [addFirst, removeFirst_size, add_size]

/-- The loops of `succeeded` and `defineChildNodes`. -/
def addAll (parent : Option ℕ) (compList : List Component) (tree : SolutionTree)
    (valid : ∀ p ∈ parent, p < tree.size) : SolutionTree :=
  match compList with
  | [] => tree
  | c :: rest =>
      addAll parent rest (tree.addFirst parent valid c rest) fun p pMem => by
        rw [addFirst_size]
        exact Nat.lt_succ_of_lt (valid p pMem)

/-- The tree that `CreateComponentsTask.succeeded` puts under the root. -/
def succeeded (result : List Component) : SolutionTree :=
  addAll none result empty fun _ none => by cases none

def mark (tree : SolutionTree) (r : ℕ) : SolutionTree :=
  tree.modify r (fun node => { node with areChildrenDefined := true }) fun _ => ⟨rfl, rfl⟩

def defineChildNodes (tree : SolutionTree) (r : ℕ) (valid : r < tree.size) : SolutionTree :=
  addAll (some r) ((tree.mark r).node r).childList (tree.mark r) fun p pMem => by
    rw [Option.mem_some_iff] at pMem
    exact pMem ▸ valid

/-- Asking a node that does not exist leaves the tree alone. -/
def getChildCount (tree : SolutionTree) (r : ℕ) : ℕ × SolutionTree :=
  if valid : r < tree.size then
    let tree :=
      if (tree.node r).areChildrenDefined then tree else tree.defineChildNodes r valid
    ((tree.node r).children.length, tree)
  else (0, tree)

end SolutionTree

/-- A value that is computed along the path of a node and cached in a field. -/
structure PathCache (β : Type) where
  get : SolutionTreeNode → Option β
  set : β → SolutionTreeNode → SolutionTreeNode
  start : β
  extend : β → Component → β
  get_set : ∀ value node, get (set value node) = some value
  shape_set : ∀ value node, (set value node).shape = node.shape

namespace PathCache

variable {β : Type} (cache : PathCache β)

theorem links (value : β) (node : SolutionTreeNode) :
    (cache.set value node).parent = node.parent ∧
      (cache.set value node).children = node.children :=
  ⟨SolutionTreeNode.parent_eq (cache.shape_set value node),
    SolutionTreeNode.children_eq (cache.shape_set value node)⟩

def value (path : List Component) : β := path.foldl cache.extend cache.start

end PathCache

namespace SolutionTree

/-- The common body of `getUnits` and `getSolution`. -/
def getCached {β : Type} (cache : PathCache β) (tree : SolutionTree) (r : ℕ) :
    β × SolutionTree :=
  match cache.get (tree.node r) with
  | some value => (value, tree)
  | none =>
      match parentEq : (tree.node r).parent with
      | none =>
          let value := cache.extend cache.start (tree.node r).data
          (value, tree.modify r (cache.set value) (cache.links value))
      | some p =>
          have _older : p < r := tree.parent_lt r p parentEq
          let inherited := getCached cache tree p
          let value := cache.extend inherited.1 (inherited.2.node r).data
          (value, inherited.2.modify r (cache.set value) (cache.links value))
termination_by r

def unitsCache : PathCache (Finset FunctionalUnit) where
  get node := node.units
  set units node := { node with units := some units }
  start := ∅
  extend units data := units ∪ data.toFinset
  get_set _ _ := rfl
  shape_set _ _ := rfl

def solutionCache : PathCache (List Component) where
  get node := node.solution
  set solution node := { node with solution := some solution }
  start := []
  extend solution data := solution ++ [data]
  get_set _ _ := rfl
  shape_set _ _ := rfl

def getUnits (tree : SolutionTree) (r : ℕ) : Finset FunctionalUnit × SolutionTree :=
  tree.getCached unitsCache r

def getSolution (tree : SolutionTree) (r : ℕ) : List Component × SolutionTree :=
  tree.getCached solutionCache r

def isSolution (num : ℤ) (tree : SolutionTree) (r : ℕ) : Bool × SolutionTree :=
  let units := tree.getUnits r
  (decide (units.1.card = num), units.2)

def countEach (count : SolutionTree → ℕ → Option (ℕ × SolutionTree)) :
    List ℕ → ℕ → SolutionTree → Option (ℕ × SolutionTree)
  | [], total, tree => some (total, tree)
  | i :: is, total, tree => do
      let (more, tree) ← count tree i
      countEach count is (total + more) tree

/-- `getNodeCount` of a node, with `fuel` for the depth of the recursion. -/
def getNodeCount : ℕ → SolutionTree → ℕ → Option (ℕ × SolutionTree)
  | 0, _, _ => none
  | fuel + 1, tree, r =>
      let expanded := (tree.getChildCount r).2
      countEach (getNodeCount fuel) (expanded.node r).children 1 expanded

/-- `countNodes`: `getNodeCount` of the root. -/
def countNodes (fuel : ℕ) (tree : SolutionTree) : Option (ℕ × SolutionTree) :=
  countEach (getNodeCount fuel) tree.rootChildren 1 tree

def path (tree : SolutionTree) (r : ℕ) : List Component :=
  match parentEq : (tree.node r).parent with
  | none => [(tree.node r).data]
  | some p =>
      have _older : p < r := tree.parent_lt r p parentEq
      path tree p ++ [(tree.node r).data]
termination_by r

/-- A node and all nodes below it, in preorder. -/
def below (tree : SolutionTree) (r : ℕ) : List ℕ :=
  r :: (tree.node r).children.attach.flatMap fun c => below tree c.1
termination_by tree.size - r
decreasing_by
  have younger := tree.lt_child r c.1 c.2
  omega

def nodes (tree : SolutionTree) : List ℕ :=
  tree.rootChildren.flatMap tree.below

end SolutionTree

/-- The trees that any order of queries can lead to. -/
inductive SolutionTree.Reached (num : ℤ) (result : List Component) : SolutionTree → Prop
  | succeeded : Reached num result (.succeeded result)
  | getChildCount {tree : SolutionTree} {r : ℕ} (valid : r < tree.size)
      (before : Reached num result tree) : Reached num result (tree.getChildCount r).2
  | getUnits {tree : SolutionTree} {r : ℕ} (valid : r < tree.size)
      (before : Reached num result tree) : Reached num result (tree.getUnits r).2
  | getSolution {tree : SolutionTree} {r : ℕ} (valid : r < tree.size)
      (before : Reached num result tree) : Reached num result (tree.getSolution r).2
  | isSolution {tree : SolutionTree} {r : ℕ} (valid : r < tree.size)
      (before : Reached num result tree) : Reached num result (tree.isSolution num r).2
  | countNodes {tree tree' : SolutionTree} {fuel count : ℕ}
      (counted : tree.countNodes fuel = some (count, tree'))
      (before : Reached num result tree) : Reached num result tree'

end MrsOptimization.Combinations
