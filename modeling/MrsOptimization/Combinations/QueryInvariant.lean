import MrsOptimization.Combinations.SolutionTree

/-!
# What every order of queries keeps

`Covers` says that a list of siblings starts the subsequences of a list of
candidates, one sibling for each candidate. In every reachable tree the children of
an expanded node cover its candidates, whatever the order of the queries was, and
every cached value belongs to the path of its node.
-/

namespace MrsOptimization.Combinations

namespace SolutionTree

variable {tree tree' : SolutionTree} {r p : ℕ} {parent : Option ℕ}
  {compList : List Component}

section Paths

theorem path_of_none (root : (tree.node r).parent = none) :
    tree.path r = [(tree.node r).data] := by
  rw [path]
  split
  · rfl
  · rename_i found
    cases root.symm.trans found

theorem path_of_some (linked : (tree.node r).parent = some p) :
    tree.path r = tree.path p ++ [(tree.node r).data] := by
  rw [path]
  split
  · rename_i found
    cases linked.symm.trans found
  · rename_i found
    cases linked.symm.trans found
    rfl

/-- The path of a parent; the root is on no path. -/
def pathTo (tree : SolutionTree) : Option ℕ → List Component
  | none => []
  | some p => tree.path p

theorem path_eq (tree : SolutionTree) (r : ℕ) :
    tree.path r = tree.pathTo (tree.node r).parent ++ [(tree.node r).data] := by
  cases linked : (tree.node r).parent with
  | none => exact path_of_none linked
  | some p => exact path_of_some linked

end Paths

/-- The siblings `is` below `parent` have the candidates in turn as their data, and each keeps
the candidates after its own. -/
inductive Covers (tree : SolutionTree) (parent : Option ℕ) : List Component → List ℕ → Prop
  | nil : Covers tree parent [] []
  | cons {c : Component} {rest : List Component} {i : ℕ} {is : List ℕ}
      (valid : i < tree.size) (parentEq : (tree.node i).parent = parent)
      (dataEq : (tree.node i).data = c) (candidatesEq : (tree.node i).candidates = rest)
      (younger : ∀ j ∈ is, i < j) (later : Covers tree parent rest is) :
      Covers tree parent (c :: rest) (i :: is)

theorem Covers.mem {is : List ℕ} (covers : Covers tree parent compList is) :
    ∀ i ∈ is, i < tree.size ∧ (tree.node i).parent = parent := by
  induction covers with
  | nil => exact fun _ none => by cases none
  | cons valid parentEq _ _ _ _ ih =>
      intro j jMem
      rcases List.mem_cons.mp jMem with rfl | later
      · exact ⟨valid, parentEq⟩
      · exact ih j later

/-- Nodes keep their parents, their data and their first candidates. -/
structure Keeps (tree tree' : SolutionTree) : Prop where
  size : tree.size ≤ tree'.size
  parent : ∀ i < tree.size, (tree'.node i).parent = (tree.node i).parent
  data : ∀ i < tree.size, (tree'.node i).data = (tree.node i).data
  candidates : ∀ i < tree.size, (tree'.node i).candidates = (tree.node i).candidates

theorem Keeps.path (keeps : Keeps tree tree') (valid : r < tree.size) :
    tree'.path r = tree.path r := by
  induction r using Nat.strongRecOn with
  | ind r ih =>
      rw [path_eq, path_eq tree, keeps.parent r valid, keeps.data r valid]
      cases linked : (tree.node r).parent with
      | none => rfl
      | some p =>
          have older : p < r := tree.parent_lt r p linked
          exact congrArg (· ++ _) (ih p older (older.trans valid))

theorem Keeps.covers (keeps : Keeps tree tree') {is : List ℕ}
    (covers : Covers tree parent compList is) : Covers tree' parent compList is := by
  induction covers with
  | nil => exact .nil
  | cons valid parentEq dataEq candidatesEq younger _ ih =>
      exact .cons (valid.trans_le keeps.size) ((keeps.parent _ valid).trans parentEq)
        ((keeps.data _ valid).trans dataEq) ((keeps.candidates _ valid).trans candidatesEq)
        younger ih

def CacheRight {β : Type} (cache : PathCache β) (tree : SolutionTree) : Prop :=
  ∀ r < tree.size, ∀ value ∈ cache.get (tree.node r), value = cache.value (tree.path r)

theorem Keeps.cacheRight {β : Type} {cache : PathCache β} (keeps : Keeps tree tree')
    (right : CacheRight cache tree)
    (kept : ∀ i < tree.size, cache.get (tree'.node i) = cache.get (tree.node i))
    (unfilled : ∀ i, tree.size ≤ i → i < tree'.size → cache.get (tree'.node i) = none) :
    CacheRight cache tree' := by
  intro i valid value cached
  by_cases old : i < tree.size
  · rw [kept i old] at cached
    rw [keeps.path old]
    exact right i old value cached
  · rw [unfilled i (not_lt.mp old) valid] at cached
    cases cached

def childrenOf (tree : SolutionTree) : Option ℕ → List ℕ
  | none => tree.rootChildren
  | some p => (tree.node p).children

/-- A node whose children have not been counted yet. -/
structure Untouched (node : SolutionTreeNode) : Prop where
  areChildrenDefined : node.areChildrenDefined = false
  childList : node.childList = node.candidates
  children : node.children = []
  units : node.units = none
  solution : node.solution = none

/-- What the loop that adds the children of `parent` does to the tree. -/
structure Added (parent : Option ℕ) (compList : List Component)
    (tree tree' : SolutionTree) : Prop where
  size : tree.size ≤ tree'.size
  others : ∀ q < tree.size, some q ≠ parent → tree'.node q = tree.node q
  owner : ∀ q ∈ parent, tree'.node q =
    { tree.node q with
      childList := (tree.node q).childList.drop compList.length
      children := (tree'.node q).children }
  root : parent ≠ none → tree'.rootChildren = tree.rootChildren
  children : ∃ new, tree'.childrenOf parent = tree.childrenOf parent ++ new ∧
    (∀ i ∈ new, tree.size ≤ i) ∧ Covers tree' parent compList new
  created : ∀ i, tree.size ≤ i → i < tree'.size → Untouched (tree'.node i)

theorem Added.same (added : Added parent compList tree tree') {i : ℕ} (valid : i < tree.size) :
    ∃ childList children, tree'.node i =
      { tree.node i with childList := childList, children := children } := by
  by_cases owner : some i = parent
  · exact ⟨_, _, added.owner i owner.symm⟩
  · exact ⟨_, _, added.others i valid owner⟩

theorem Added.keeps (added : Added parent compList tree tree') : Keeps tree tree' := by
  refine ⟨added.size, fun i valid => ?_, fun i valid => ?_, fun i valid => ?_⟩ <;>
  · rcases added.same valid with ⟨_, _, nodeEq⟩
    rw [nodeEq]

section Loop

variable {c : Component} {rest : List Component}

/-- The constructor removes the component that it takes, as equality of lists finds it first. -/
theorem new_cons (c : Component) (rest : List Component) :
    SolutionTreeNode.new (c :: rest) (List.cons_ne_nil c rest) =
      ⟨false, c, rest, none, none, none, [], rest⟩ := by
  simp [SolutionTreeNode.new]

variable {valid : ∀ p ∈ parent, p < tree.size}

theorem addFirst_new : (tree.addFirst parent valid c rest).node tree.size =
    ⟨false, c, rest, none, none, parent, [], rest⟩ := by
  cases parent with
  | none => simp [addFirst, removeFirst, add, new_cons]
  | some p =>
      have different : tree.size ≠ p := (valid p rfl).ne'
      simp [addFirst, removeFirst, add, modify, new_cons, Function.update_of_ne different]

theorem addFirst_others {q : ℕ} (old : q < tree.size) (different : some q ≠ parent) :
    (tree.addFirst parent valid c rest).node q = tree.node q := by
  cases parent with
  | none => simp [addFirst, removeFirst, add, old.ne]
  | some p =>
      have elsewhere : q ≠ p := fun same => different (congrArg some same)
      simp [addFirst, removeFirst, add, modify, old.ne, elsewhere]

theorem addFirst_owner (linked : parent = some p) :
    (tree.addFirst parent valid c rest).node p =
      { tree.node p with
        childList := (tree.node p).childList.tail
        children := (tree.node p).children ++ [tree.size] } := by
  subst linked
  simp [addFirst, removeFirst, add, modify, (valid p rfl).ne]

theorem addFirst_rootChildren : (tree.addFirst parent valid c rest).rootChildren =
    if parent = none then tree.rootChildren ++ [tree.size] else tree.rootChildren := by
  cases parent <;> rfl

theorem addFirst_childrenOf :
    (tree.addFirst parent valid c rest).childrenOf parent =
      tree.childrenOf parent ++ [tree.size] := by
  cases parent with
  | none => rfl
  | some p => exact congrArg SolutionTreeNode.children (addFirst_owner rfl)

theorem addAll_added (parent : Option ℕ) (compList : List Component) (tree : SolutionTree)
    (valid : ∀ p ∈ parent, p < tree.size) :
    Added parent compList tree (addAll parent compList tree valid) := by
  induction compList generalizing tree with
  | nil =>
      refine ⟨le_rfl, fun _ _ _ => rfl, fun q _ => rfl, fun _ => rfl, ⟨[], ?_, ?_, .nil⟩, ?_⟩
      · exact (List.append_nil _).symm
      · exact fun _ none => by cases none
      · exact fun i old young => absurd young old.not_gt
  | cons c rest ih =>
      have inner := ih (tree.addFirst parent valid c rest) fun p pMem => by
        rw [addFirst_size]
        exact Nat.lt_succ_of_lt (valid p pMem)
      have newAlone : some tree.size ≠ parent := fun linked =>
        (valid tree.size linked.symm).false
      rw [addAll]
      generalize addAll parent rest (tree.addFirst parent valid c rest) _ = last at inner ⊢
      have sizeEq := addFirst_size tree parent valid c rest
      have newEq : last.node tree.size = ⟨false, c, rest, none, none, parent, [], rest⟩ :=
        (inner.others tree.size (by omega) newAlone).trans addFirst_new
      refine ⟨by have := inner.size; omega, fun q old different => ?_, fun q qMem => ?_,
        fun inside => ?_, ?_, fun i young created => ?_⟩
      · exact (inner.others q (by omega) different).trans (addFirst_others old different)
      · rw [inner.owner q qMem, addFirst_owner qMem]
        simp
      · rw [inner.root inside, addFirst_rootChildren, if_neg inside]
      · rcases inner.children with ⟨new, childrenEq, young, covers⟩
        refine ⟨tree.size :: new, ?_, ?_, ?_⟩
        · rw [childrenEq, addFirst_childrenOf, List.append_assoc]
          rfl
        · intro i iMem
          rcases List.mem_cons.mp iMem with rfl | later
          · exact le_rfl
          · have := young i later
            omega
        · refine .cons (by have := inner.size; omega) ?_ ?_ ?_ ?_ covers
          · rw [newEq]
          · rw [newEq]
          · rw [newEq]
          · intro i iMem
            have := young i iMem
            omega
      · rcases young.eq_or_lt with rfl | younger
        · rw [newEq]
          exact ⟨rfl, rfl, rfl, rfl, rfl⟩
        · exact inner.created i (by omega) created

end Loop

/-- What holds of the tree for the components `result` at any time. -/
structure Invariant (result : List Component) (tree : SolutionTree) : Prop where
  root : Covers tree none result tree.rootChildren
  expanded : ∀ r < tree.size, (tree.node r).areChildrenDefined = true →
    Covers tree (some r) (tree.node r).candidates (tree.node r).children
  waiting : ∀ r < tree.size, (tree.node r).areChildrenDefined = false →
    (tree.node r).childList = (tree.node r).candidates ∧ (tree.node r).children = []
  units : CacheRight unitsCache tree
  solution : CacheRight solutionCache tree

theorem Added.units (added : Added parent compList tree tree')
    (right : CacheRight unitsCache tree) : CacheRight unitsCache tree' := by
  refine added.keeps.cacheRight right (fun i valid => ?_) fun i young valid =>
    (added.created i young valid).units
  rcases added.same valid with ⟨_, _, nodeEq⟩
  rw [nodeEq]
  rfl

theorem Added.solution (added : Added parent compList tree tree')
    (right : CacheRight solutionCache tree) : CacheRight solutionCache tree' := by
  refine added.keeps.cacheRight right (fun i valid => ?_) fun i young valid =>
    (added.created i young valid).solution
  rcases added.same valid with ⟨_, _, nodeEq⟩
  rw [nodeEq]
  rfl

theorem invariant_succeeded (result : List Component) : Invariant result (succeeded result) := by
  have added : Added none result empty (succeeded result) := addAll_added none result empty _
  have untouched : ∀ r < (succeeded result).size, Untouched ((succeeded result).node r) :=
    fun r valid => added.created r (Nat.zero_le r) valid
  refine ⟨?_, fun r valid expanded => ?_, fun r valid _ => ?_, added.units ?_, added.solution ?_⟩
  · rcases added.children with ⟨new, childrenEq, -, covers⟩
    change (succeeded result).rootChildren = [] ++ new at childrenEq
    rwa [childrenEq]
  · rw [(untouched r valid).areChildrenDefined] at expanded
    cases expanded
  · exact ⟨(untouched r valid).childList, (untouched r valid).children⟩
  · exact fun r none => by cases none
  · exact fun r none => by cases none

section Expansion

theorem mark_node (q : ℕ) : (tree.mark r).node q =
    { tree.node q with
      areChildrenDefined := if q = r then true else (tree.node q).areChildrenDefined } := by
  by_cases here : q = r
  · subst here
    simp [mark, modify]
  · simp [mark, modify, here]

theorem mark_keeps : Keeps tree (tree.mark r) where
  size := le_rfl
  parent i _ := by rw [mark_node]
  data i _ := by rw [mark_node]
  candidates i _ := by rw [mark_node]

theorem mark_cacheRight {β : Type} {cache : PathCache β} (right : CacheRight cache tree)
    (ignores : ∀ node defined,
      cache.get { node with areChildrenDefined := defined } = cache.get node) :
    CacheRight cache (tree.mark r) :=
  mark_keeps.cacheRight right (fun i _ => by rw [mark_node, ignores])
    fun i old valid => absurd valid old.not_gt

variable {result : List Component}

theorem mark_others {q : ℕ} (elsewhere : q ≠ r) : (tree.mark r).node q = tree.node q := by
  rw [mark_node, if_neg elsewhere]

theorem defineChildNodes_added (valid : r < tree.size) :
    Added (some r) ((tree.mark r).node r).childList (tree.mark r)
      (tree.defineChildNodes r valid) :=
  addAll_added (some r) ((tree.mark r).node r).childList (tree.mark r) _

theorem defineChildNodes_others (valid : r < tree.size) {q : ℕ} (old : q < tree.size)
    (elsewhere : q ≠ r) : (tree.defineChildNodes r valid).node q = tree.node q :=
  ((defineChildNodes_added valid).others q old (by simpa using elsewhere)).trans
    (mark_others elsewhere)

theorem defineChildNodes_owner (valid : r < tree.size) :
    ((tree.defineChildNodes r valid).node r).areChildrenDefined = true ∧
      ((tree.defineChildNodes r valid).node r).candidates = (tree.node r).candidates := by
  rw [(defineChildNodes_added valid).owner r rfl, mark_node, if_pos rfl]
  exact ⟨rfl, rfl⟩

theorem Invariant.defineChildNodes (inv : Invariant result tree) (valid : r < tree.size)
    (unexpanded : (tree.node r).areChildrenDefined = false) :
    Invariant result (tree.defineChildNodes r valid) := by
  have added := defineChildNodes_added valid
  have owner := defineChildNodes_owner valid
  have others := fun q => @defineChildNodes_others tree r valid q
  generalize tree.defineChildNodes r valid = last at added owner others ⊢
  rcases inv.waiting r valid unexpanded with ⟨childListEq, childrenEq⟩
  refine ⟨?_, fun q qValid expanded => ?_, fun q qValid waiting => ?_,
    added.units (mark_cacheRight inv.units fun _ _ => rfl),
    added.solution (mark_cacheRight inv.solution fun _ _ => rfl)⟩
  · rw [added.root (Option.some_ne_none r)]
    exact added.keeps.covers (mark_keeps.covers inv.root)
  · by_cases old : q < tree.size
    · by_cases here : q = r
      · subst here
        rcases added.children with ⟨new, newEq, -, covers⟩
        have lastChildren : (last.node q).children = new := by
          change (last.node q).children = ((tree.mark q).node q).children ++ new at newEq
          rw [newEq, mark_node, childrenEq, List.nil_append]
        have lastCandidates : (last.node q).candidates = ((tree.mark q).node q).childList := by
          rw [owner.2, mark_node]
          exact childListEq.symm
        rwa [lastChildren, lastCandidates]
      · rw [others q old here] at expanded ⊢
        exact added.keeps.covers (mark_keeps.covers (inv.expanded q old expanded))
    · rw [(added.created q (not_lt.mp old) qValid).areChildrenDefined] at expanded
      cases expanded
  · by_cases old : q < tree.size
    · by_cases here : q = r
      · subst here
        rw [owner.1] at waiting
        cases waiting
      · rw [others q old here] at waiting ⊢
        exact inv.waiting q old waiting
    · have untouched := added.created q (not_lt.mp old) qValid
      exact ⟨untouched.childList, untouched.children⟩

theorem Invariant.getChildCount (inv : Invariant result tree) (r : ℕ) :
    Invariant result (tree.getChildCount r).2 := by
  rw [SolutionTree.getChildCount]
  by_cases valid : r < tree.size
  · rw [dif_pos valid]
    by_cases expanded : (tree.node r).areChildrenDefined
    · simpa only [if_pos expanded] using inv
    · simpa only [if_neg expanded] using
        inv.defineChildNodes valid (Bool.eq_false_iff.mpr expanded)
  · rwa [dif_neg valid]

end Expansion

section Queries

structure SameShape (tree tree' : SolutionTree) : Prop where
  size : tree'.size = tree.size
  rootChildren : tree'.rootChildren = tree.rootChildren
  shape : ∀ r, (tree'.node r).shape = (tree.node r).shape

theorem SameShape.keeps (same : SameShape tree tree') : Keeps tree tree' where
  size := same.size.ge
  parent i _ := SolutionTreeNode.parent_eq (same.shape i)
  data i _ := SolutionTreeNode.data_eq (same.shape i)
  candidates i _ := SolutionTreeNode.candidates_eq (same.shape i)

theorem SameShape.trans {tree'' : SolutionTree} (first : SameShape tree tree')
    (second : SameShape tree' tree'') : SameShape tree tree'' :=
  ⟨second.size.trans first.size, second.rootChildren.trans first.rootChildren,
    fun r => (second.shape r).trans (first.shape r)⟩

variable {β γ : Type} {cache : PathCache β}

/-- What a query of a cached value returns and leaves behind. -/
structure Answered (cache : PathCache β) (tree : SolutionTree) (r : ℕ)
    (result : β × SolutionTree) : Prop where
  value : result.1 = cache.value (tree.path r)
  right : CacheRight cache result.2
  same : SameShape tree result.2
  others : ∀ {γ : Type} (other : PathCache γ),
    (∀ value node, other.get (cache.set value node) = other.get node) →
    ∀ i, other.get (result.2.node i) = other.get (tree.node i)

theorem modify_same (value : β) :
    SameShape tree (tree.modify r (cache.set value) (cache.links value)) := by
  refine ⟨rfl, rfl, fun i => ?_⟩
  by_cases here : i = r
  · subst here
    simp [modify, cache.shape_set]
  · simp [modify, here]

omit tree tree' in
theorem value_append (path : List Component) (data : Component) :
    cache.value (path ++ [data]) = cache.extend (cache.value path) data := by
  rw [PathCache.value, List.foldl_append]
  rfl

theorem solution_value (path : List Component) : solutionCache.value path = path := by
  induction path using List.reverseRecOn with
  | nil => rfl
  | append_singleton path data ih => rw [value_append, ih]; rfl

theorem units_value (path : List Component) :
    unitsCache.value path = path.flatten.toFinset := by
  induction path using List.reverseRecOn with
  | nil => rfl
  | append_singleton path data ih =>
      rw [value_append, ih]
      simp [unitsCache]

theorem answered_modify {middle : SolutionTree} (right : CacheRight cache middle)
    (same : SameShape tree middle) (valid : r < tree.size)
    (others : ∀ {γ : Type} (other : PathCache γ),
      (∀ value node, other.get (cache.set value node) = other.get node) →
      ∀ i, other.get (middle.node i) = other.get (tree.node i)) {value : β}
    (valueEq : value = cache.value (tree.path r)) :
    Answered cache tree r
      (value, middle.modify r (cache.set value) (cache.links value)) := by
  have written : SameShape middle (middle.modify r (cache.set value) (cache.links value)) :=
    modify_same value
  refine ⟨valueEq, fun i iValid cachedValue cached => ?_, same.trans written,
    fun other ignores i => ?_⟩
  · have pathEq := written.keeps.path iValid
    by_cases here : i = r
    · subst here
      have cachedEq : cachedValue = value := by
        simpa [modify, cache.get_set] using cached.symm
      rw [cachedEq, pathEq, same.keeps.path valid, valueEq]
    · rw [pathEq]
      exact right i iValid cachedValue (by simpa [modify, here] using cached)
  · by_cases here : i = r
    · subst here
      simpa [modify, ignores] using others other ignores i
    · simpa [modify, here] using others other ignores i

theorem getCached_answered (right : CacheRight cache tree) (valid : r < tree.size) :
    Answered cache tree r (tree.getCached cache r) := by
  induction r using Nat.strongRecOn with
  | ind r ih =>
      rw [getCached]
      cases cached : cache.get (tree.node r) with
      | some value =>
          exact ⟨right r valid value cached, right, ⟨rfl, rfl, fun _ => rfl⟩,
            fun _ _ _ => rfl⟩
      | none =>
          dsimp only
          split
          · rename_i root
            refine answered_modify right ⟨rfl, rfl, fun _ => rfl⟩ valid (fun _ _ _ => rfl) ?_
            rw [path_of_none root]
            rfl
          · rename_i p linked
            have older : p < r := tree.parent_lt r p linked
            have inherited := ih p older (older.trans valid)
            refine answered_modify inherited.right inherited.same valid inherited.others ?_
            rw [inherited.value, SolutionTreeNode.data_eq (inherited.same.shape r),
              path_of_some linked, value_append]

variable {result : List Component}

theorem Invariant.sameShape (inv : Invariant result tree) (same : SameShape tree tree')
    (units : CacheRight unitsCache tree') (solution : CacheRight solutionCache tree') :
    Invariant result tree' := by
  refine ⟨?_, fun r valid expanded => ?_, fun r valid waiting => ?_, units, solution⟩
  · rw [same.rootChildren]
    exact same.keeps.covers inv.root
  · rw [SolutionTreeNode.areChildrenDefined_eq (same.shape r)] at expanded
    rw [SolutionTreeNode.candidates_eq (same.shape r),
      SolutionTreeNode.children_eq (same.shape r)]
    exact same.keeps.covers (inv.expanded r (same.size ▸ valid) expanded)
  · rw [SolutionTreeNode.areChildrenDefined_eq (same.shape r)] at waiting
    rw [SolutionTreeNode.childList_eq (same.shape r),
      SolutionTreeNode.candidates_eq (same.shape r),
      SolutionTreeNode.children_eq (same.shape r)]
    exact inv.waiting r (same.size ▸ valid) waiting

theorem Answered.other {result : β × SolutionTree} (answered : Answered cache tree r result)
    {other : PathCache γ} (right : CacheRight other tree)
    (ignores : ∀ value node, other.get (cache.set value node) = other.get node) :
    CacheRight other result.2 :=
  answered.same.keeps.cacheRight right (fun i _ => answered.others other ignores i)
    fun _ young valid => absurd (answered.same.size ▸ valid) young.not_gt

theorem Invariant.getUnits (inv : Invariant result tree) (valid : r < tree.size) :
    Invariant result (tree.getUnits r).2 := by
  have answered : Answered unitsCache tree r (tree.getUnits r) :=
    getCached_answered inv.units valid
  exact inv.sameShape answered.same answered.right
    (answered.other inv.solution fun _ _ => rfl)

theorem Invariant.getSolution (inv : Invariant result tree) (valid : r < tree.size) :
    Invariant result (tree.getSolution r).2 := by
  have answered : Answered solutionCache tree r (tree.getSolution r) :=
    getCached_answered inv.solution valid
  exact inv.sameShape answered.same (answered.other inv.units fun _ _ => rfl)
    answered.right

end Queries

section Runs

variable {result : List Component}

theorem Invariant.countEach (inv : Invariant result tree) {is : List ℕ} {total count : ℕ}
    {one : SolutionTree → ℕ → Option (ℕ × SolutionTree)}
    (each : ∀ {tree tree' : SolutionTree} {r count : ℕ}, Invariant result tree →
      one tree r = some (count, tree') → Invariant result tree')
    (counted : countEach one is total tree = some (count, tree')) :
    Invariant result tree' := by
  induction is generalizing total tree with
  | nil =>
      cases counted
      exact inv
  | cons i is ih =>
      rcases Option.bind_eq_some_iff.mp counted with ⟨⟨more, middle⟩, first, rest⟩
      exact ih (each inv first) rest

theorem Invariant.getNodeCount {fuel count : ℕ} (inv : Invariant result tree)
    (counted : getNodeCount fuel tree r = some (count, tree')) : Invariant result tree' := by
  induction fuel generalizing tree tree' r count with
  | zero => cases counted
  | succ fuel ih =>
      exact (inv.getChildCount r).countEach (fun before one => ih before one) counted

theorem Reached.invariant {num : ℤ} (reached : Reached num result tree) :
    Invariant result tree := by
  induction reached with
  | succeeded => exact invariant_succeeded result
  | getChildCount _ _ ih => exact ih.getChildCount _
  | getUnits valid _ ih => exact ih.getUnits valid
  | getSolution valid _ ih => exact ih.getSolution valid
  | isSolution valid _ ih => exact ih.getUnits valid
  | countNodes counted _ ih =>
      exact ih.countEach (fun before one => before.getNodeCount one) counted

end Runs

end SolutionTree

end MrsOptimization.Combinations
