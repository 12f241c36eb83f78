import MrsOptimization.Combinations.QueryInvariant

/-!
# The solution tree enumerates the subsequences

From the invariant of the queries: the paths of the nodes of a fully expanded tree
are the non-empty subsequences of the components, no node stands at two places, and
counting the nodes expands all of them.
-/

namespace MrsOptimization.Combinations

namespace SolutionTree

variable {tree tree' : SolutionTree} {r p : ℕ} {parent : Option ℕ}
  {compList : List Component}

section Enumeration

variable {result : List Component}

theorem below_eq (tree : SolutionTree) (r : ℕ) :
    tree.below r = r :: (tree.node r).children.flatMap tree.below := by
  rw [below]
  simp

theorem Covers.shorter {is : List ℕ} (covers : Covers tree parent compList is) :
    ∀ i ∈ is, (tree.node i).candidates.length < compList.length := by
  induction covers with
  | nil => exact fun _ none => by cases none
  | cons _ _ _ candidatesEq _ _ ih =>
      intro j jMem
      rcases List.mem_cons.mp jMem with rfl | later
      · rw [candidatesEq]
        exact Nat.lt_succ_self _
      · exact (ih j later).trans (Nat.lt_succ_self _)

/-- Siblings and what is below them, if each enumerates its own candidates. -/
theorem Covers.map_path {is : List ℕ} (covers : Covers tree parent compList is)
    (each : ∀ i ∈ is, (tree.below i).map tree.path =
      tree.path i :: (subsequences (tree.node i).candidates).map (tree.path i ++ ·)) :
    (is.flatMap tree.below).map tree.path =
      (subsequences compList).map (tree.pathTo parent ++ ·) := by
  induction covers with
  | nil => rfl
  | @cons c rest i is valid parentEq dataEq candidatesEq younger later ih =>
      have pathEq : tree.path i = tree.pathTo parent ++ [c] := by
        rw [path_eq, parentEq, dataEq]
      have own := each i List.mem_cons_self
      rw [candidatesEq, pathEq] at own
      have others := ih fun j jMem => each j (List.mem_cons_of_mem i jMem)
      rw [List.flatMap_cons, List.map_append, own, others]
      simp [subsequences]

def FullyExpanded (tree : SolutionTree) (r : ℕ) : Prop :=
  ∀ q ∈ tree.below r, (tree.node q).areChildrenDefined = true

theorem FullyExpanded.child (full : tree.FullyExpanded r) {c : ℕ}
    (child : c ∈ (tree.node r).children) : tree.FullyExpanded c := by
  intro q qBelow
  refine full q ?_
  rw [below_eq, List.mem_cons, List.mem_flatMap]
  exact Or.inr ⟨c, child, qBelow⟩

theorem FullyExpanded.self (full : tree.FullyExpanded r) :
    (tree.node r).areChildrenDefined = true :=
  full r (by rw [below_eq]; exact List.mem_cons_self)

/-- The nodes below a node add the subsequences of its candidates to its path. -/
theorem Invariant.map_path_below (inv : Invariant result tree) (valid : r < tree.size)
    (full : tree.FullyExpanded r) :
    (tree.below r).map tree.path =
      tree.path r :: (subsequences (tree.node r).candidates).map (tree.path r ++ ·) := by
  induction bound : (tree.node r).candidates.length using Nat.strongRecOn generalizing r with
  | ind length ih =>
      subst bound
      have covers := inv.expanded r valid full.self
      rw [below_eq, List.map_cons, covers.map_path]
      · rfl
      · intro c cMem
        exact ih _ (covers.shorter c cMem) (covers.mem c cMem).1 (full.child cMem) rfl

theorem Invariant.map_path_nodes (inv : Invariant result tree)
    (full : ∀ r ∈ tree.nodes, (tree.node r).areChildrenDefined = true) :
    tree.nodes.map tree.path = subsequences result := by
  rw [nodes, inv.root.map_path]
  · simp [pathTo]
  · intro r root
    refine inv.map_path_below (inv.root.mem r root).1 fun q qBelow => full q ?_
    exact List.mem_flatMap.mpr ⟨r, root, qBelow⟩

theorem le_of_mem_below {x c : ℕ} (xBelow : x ∈ tree.below c) : c ≤ x := by
  induction bound : tree.size - c using Nat.strongRecOn generalizing c with
  | ind size ih =>
      subst bound
      rw [below_eq, List.mem_cons, List.mem_flatMap] at xBelow
      rcases xBelow with rfl | ⟨d, child, xBelow⟩
      · exact le_rfl
      · have younger := tree.lt_child c d child
        have dLe := ih _ (by omega) xBelow rfl
        omega

theorem cases_of_mem_below {x c : ℕ} (xBelow : x ∈ tree.below c) :
    x = c ∨ ∃ p ∈ tree.below c, x ∈ (tree.node p).children := by
  induction bound : tree.size - c using Nat.strongRecOn generalizing c with
  | ind size ih =>
      subst bound
      rw [below_eq, List.mem_cons, List.mem_flatMap] at xBelow
      rcases xBelow with rfl | ⟨d, child, xBelow⟩
      · exact Or.inl rfl
      · right
        have younger := tree.lt_child c d child
        rcases ih _ (by omega) xBelow rfl with rfl | ⟨p, pBelow, xChild⟩
        · exact ⟨c, by rw [below_eq]; exact List.mem_cons_self, child⟩
        · refine ⟨p, ?_, xChild⟩
          rw [below_eq, List.mem_cons, List.mem_flatMap]
          exact Or.inr ⟨d, child, pBelow⟩

theorem lt_size_of_mem_below {x c : ℕ} (xBelow : x ∈ tree.below c) (valid : c < tree.size) :
    x < tree.size := by
  rcases cases_of_mem_below xBelow with rfl | ⟨p, -, xChild⟩
  · exact valid
  · exact (tree.lt_child p x xChild).2

theorem Invariant.parent_of_child (inv : Invariant result tree) {x : ℕ} (valid : p < tree.size)
    (child : x ∈ (tree.node p).children) : (tree.node x).parent = some p := by
  cases expanded : (tree.node p).areChildrenDefined with
  | true => exact ((inv.expanded p valid expanded).mem x child).2
  | false =>
      rw [(inv.waiting p valid expanded).2] at child
      cases child

theorem Invariant.below_disjoint (inv : Invariant result tree) {c d : ℕ} (cValid : c < tree.size)
    (dValid : d < tree.size) (different : c ≠ d)
    (siblings : (tree.node c).parent = (tree.node d).parent) :
    List.Disjoint (tree.below c) (tree.below d) := by
  intro x xBelowC xBelowD
  induction x using Nat.strongRecOn with
  | ind x ih =>
      rcases cases_of_mem_below xBelowC with rfl | ⟨p, pBelow, xChild⟩
      · rcases cases_of_mem_below xBelowD with rfl | ⟨q, qBelow, xChild⟩
        · exact different rfl
        · have linked := inv.parent_of_child (lt_size_of_mem_below qBelow dValid) xChild
          have older := tree.parent_lt d q (siblings ▸ linked)
          exact absurd (le_of_mem_below qBelow) older.not_ge
      · have linked := inv.parent_of_child (lt_size_of_mem_below pBelow cValid) xChild
        rcases cases_of_mem_below xBelowD with rfl | ⟨q, qBelow, xChild'⟩
        · have older := tree.parent_lt c p (siblings ▸ linked)
          exact absurd (le_of_mem_below pBelow) older.not_ge
        · have linked' := inv.parent_of_child (lt_size_of_mem_below qBelow dValid) xChild'
          have same : p = q := Option.some.inj (linked.symm.trans linked')
          exact ih p (tree.parent_lt x p linked) pBelow (same ▸ qBelow)

theorem Covers.pairwise {is : List ℕ} (covers : Covers tree parent compList is) :
    is.Pairwise (· < ·) := by
  induction covers with
  | nil => exact .nil
  | cons _ _ _ _ younger _ ih => exact .cons younger ih

theorem Invariant.nodup_siblings (inv : Invariant result tree) {is : List ℕ}
    (covers : Covers tree parent compList is) (each : ∀ i ∈ is, (tree.below i).Nodup) :
    (is.flatMap tree.below).Nodup := by
  refine List.nodup_flatMap.mpr ⟨each, covers.pairwise.imp_of_mem fun iMem jMem younger => ?_⟩
  rcases covers.mem _ iMem with ⟨iValid, iParent⟩
  rcases covers.mem _ jMem with ⟨jValid, jParent⟩
  exact inv.below_disjoint iValid jValid younger.ne (iParent.trans jParent.symm)

theorem Invariant.nodup_below (inv : Invariant result tree) (valid : r < tree.size) :
    (tree.below r).Nodup := by
  induction bound : tree.size - r using Nat.strongRecOn generalizing r with
  | ind size ih =>
      subst bound
      rw [below_eq, List.nodup_cons]
      constructor
      · intro again
        rcases List.mem_flatMap.mp again with ⟨c, child, rBelow⟩
        exact absurd (le_of_mem_below rBelow) (tree.lt_child r c child).1.not_ge
      · cases expanded : (tree.node r).areChildrenDefined with
        | true =>
            refine inv.nodup_siblings (inv.expanded r valid expanded) fun c child => ?_
            have younger := tree.lt_child r c child
            exact ih _ (by omega) younger.2 rfl
        | false =>
            rw [(inv.waiting r valid expanded).2]
            exact List.nodup_nil

theorem Invariant.lt_size_of_mem_nodes (inv : Invariant result tree) (member : r ∈ tree.nodes) :
    r < tree.size := by
  rcases List.mem_flatMap.mp member with ⟨c, root, rBelow⟩
  exact lt_size_of_mem_below rBelow (inv.root.mem c root).1

/-- No node stands at two places of the tree. -/
theorem Invariant.nodup_nodes (inv : Invariant result tree) : tree.nodes.Nodup :=
  inv.nodup_siblings inv.root fun r root => inv.nodup_below (inv.root.mem r root).1

end Enumeration

section Count

variable {result : List Component}

structure Grows (tree tree' : SolutionTree) : Prop where
  keeps : Keeps tree tree'
  rootChildren : tree'.rootChildren = tree.rootChildren
  expanded : ∀ i < tree.size, (tree.node i).areChildrenDefined = true →
    (tree'.node i).areChildrenDefined = true ∧ (tree'.node i).children = (tree.node i).children

theorem Grows.refl (tree : SolutionTree) : Grows tree tree :=
  ⟨⟨le_rfl, fun _ _ => rfl, fun _ _ => rfl, fun _ _ => rfl⟩, rfl, fun _ _ is => ⟨is, rfl⟩⟩

theorem Grows.trans {tree'' : SolutionTree} (first : Grows tree tree')
    (second : Grows tree' tree'') : Grows tree tree'' := by
  refine ⟨⟨first.keeps.size.trans second.keeps.size, fun i valid => ?_, fun i valid => ?_,
    fun i valid => ?_⟩, second.rootChildren.trans first.rootChildren, fun i valid is => ?_⟩
  · exact (second.keeps.parent i (valid.trans_le first.keeps.size)).trans
      (first.keeps.parent i valid)
  · exact (second.keeps.data i (valid.trans_le first.keeps.size)).trans
      (first.keeps.data i valid)
  · exact (second.keeps.candidates i (valid.trans_le first.keeps.size)).trans
      (first.keeps.candidates i valid)
  · rcases first.expanded i valid is with ⟨still, same⟩
    rcases second.expanded i (valid.trans_le first.keeps.size) still with ⟨later, again⟩
    exact ⟨later, again.trans same⟩

theorem Grows.fullyExpanded (grows : Grows tree tree') (valid : r < tree.size)
    (full : tree.FullyExpanded r) : tree'.FullyExpanded r := by
  induction bound : tree.size - r using Nat.strongRecOn generalizing r with
  | ind size ih =>
      subst bound
      rcases grows.expanded r valid full.self with ⟨still, same⟩
      intro q qBelow
      rw [below_eq, List.mem_cons, List.mem_flatMap, same] at qBelow
      rcases qBelow with rfl | ⟨c, child, qBelow⟩
      · exact still
      · have younger := tree.lt_child r c child
        exact ih _ (by omega) younger.2 (full.child child) rfl q qBelow

theorem getChildCount_grows (valid : r < tree.size) :
    Grows tree (tree.getChildCount r).2 ∧
      ((tree.getChildCount r).2.node r).areChildrenDefined = true := by
  rw [SolutionTree.getChildCount, dif_pos valid]
  by_cases expanded : (tree.node r).areChildrenDefined
  · simpa only [if_pos expanded] using ⟨Grows.refl tree, expanded⟩
  · simp only [if_neg expanded]
    have added := defineChildNodes_added valid
    refine ⟨⟨⟨added.size, fun i old => ?_, fun i old => ?_, fun i old => ?_⟩,
      added.root (Option.some_ne_none r), fun i old is => ?_⟩, (defineChildNodes_owner valid).1⟩
    · exact (added.keeps.parent i old).trans (mark_keeps.parent i old)
    · exact (added.keeps.data i old).trans (mark_keeps.data i old)
    · exact (added.keeps.candidates i old).trans (mark_keeps.candidates i old)
    · have elsewhere : i ≠ r := by
        rintro rfl
        exact expanded is
      rw [defineChildNodes_others valid old elsewhere]
      exact ⟨is, rfl⟩

/-- Counting siblings, if counting each of them enumerates its candidates. -/
theorem Covers.countEach {is : List ℕ} {one : SolutionTree → ℕ → Option (ℕ × SolutionTree)}
    (covers : Covers tree parent compList is) (total : ℕ) (inv : Invariant result tree)
    (each : ∀ {tree : SolutionTree} {i : ℕ}, Invariant result tree → i < tree.size →
      (tree.node i).candidates.length < compList.length →
      ∃ tree', one tree i = some (2 ^ (tree.node i).candidates.length, tree') ∧
        Invariant result tree' ∧ Grows tree tree' ∧ tree'.FullyExpanded i) :
    ∃ tree', countEach one is total tree = some (total + (2 ^ compList.length - 1), tree') ∧
      Invariant result tree' ∧ Grows tree tree' ∧ ∀ i ∈ is, tree'.FullyExpanded i := by
  induction compList generalizing tree is total with
  | nil =>
      cases covers
      exact ⟨tree, rfl, inv, Grows.refl tree, fun _ none => by cases none⟩
  | cons c rest ih =>
      cases covers with
      | @cons _ _ i is valid _ _ candidatesEq _ later =>
          rcases each inv valid (candidatesEq ▸ Nat.lt_succ_self _) with
            ⟨middle, oneEq, middleInv, first, full⟩
          rcases ih (first.keeps.covers later) (total + 2 ^ rest.length) middleInv
            (fun before valid shorter => each before valid (Nat.lt_succ_of_lt shorter)) with
            ⟨last, restEq, lastInv, others, fullRest⟩
          refine ⟨last, ?_, lastInv, first.trans others, fun j jMem => ?_⟩
          · have counted : total + 2 ^ rest.length + (2 ^ rest.length - 1) =
                total + (2 ^ (rest.length + 1) - 1) := by
              have positive : 0 < 2 ^ rest.length := Nat.two_pow_pos _
              rw [pow_succ]
              omega
            rw [SolutionTree.countEach, oneEq, candidatesEq]
            exact restEq.trans (by rw [counted]; rfl)
          · rcases List.mem_cons.mp jMem with rfl | jLater
            · exact others.fullyExpanded (valid.trans_le first.keeps.size) full
            · exact fullRest j jLater

theorem Invariant.getNodeCount_eq {fuel : ℕ} (inv : Invariant result tree)
    (valid : r < tree.size) (enough : (tree.node r).candidates.length < fuel) :
    ∃ tree', tree.getNodeCount fuel r = some (2 ^ (tree.node r).candidates.length, tree') ∧
      Invariant result tree' ∧ Grows tree tree' ∧ tree'.FullyExpanded r := by
  induction fuel generalizing tree r with
  | zero => cases enough
  | succ fuel ih =>
      rcases getChildCount_grows valid with ⟨grows, expanded⟩
      have invExpanded := inv.getChildCount r
      have candidatesEq := grows.keeps.candidates r valid
      have validExpanded := valid.trans_le grows.keeps.size
      have covers := invExpanded.expanded r validExpanded expanded
      rcases covers.countEach 1 invExpanded (fun before valid shorter =>
        ih before valid (by rw [candidatesEq] at shorter; omega)) with
        ⟨last, counted, lastInv, later, full⟩
      refine ⟨last, ?_, lastInv, grows.trans later, ?_⟩
      · have positive : 0 < 2 ^ (tree.node r).candidates.length := Nat.two_pow_pos _
        rw [candidatesEq] at counted
        rw [SolutionTree.getNodeCount, counted]
        congr 2
        omega
      · rcases later.expanded r validExpanded expanded with ⟨still, same⟩
        intro q qBelow
        rw [below_eq, List.mem_cons, List.mem_flatMap, same] at qBelow
        rcases qBelow with rfl | ⟨c, child, qBelow⟩
        · exact still
        · exact full c child q qBelow

/-- `countNodes` returns, expands the whole tree, and counts its root as well. -/
theorem Invariant.countNodes_eq (inv : Invariant result tree) :
    ∃ tree', tree.countNodes result.length = some (2 ^ result.length, tree') ∧
      ∀ r ∈ tree'.nodes, (tree'.node r).areChildrenDefined = true := by
  rcases inv.root.countEach 1 inv (fun before valid shorter =>
    before.getNodeCount_eq valid shorter) with ⟨last, counted, lastInv, grows, full⟩
  refine ⟨last, ?_, fun q qMem => ?_⟩
  · have positive : 0 < 2 ^ result.length := Nat.two_pow_pos _
    rw [SolutionTree.countNodes, counted]
    congr 2
    omega
  · rcases List.mem_flatMap.mp qMem with ⟨r, root, qBelow⟩
    rw [grows.rootChildren] at root
    exact full r root q qBelow

end Count

end SolutionTree

open SolutionTree in
/-- In every tree that queries can lead to, each node stands at one place, `getSolution` is the
path of the node, and `isSolution` compares the number of the functional units on it with `num`.
A fully expanded tree has one node for each non-empty subsequence of the components. Counting
the nodes expands the tree. -/
theorem solutionTree_enumerates (result : List Component) (num : ℤ) (tree : SolutionTree)
    (reached : Reached num result tree) :
    tree.nodes.Nodup ∧
    (∀ r ∈ tree.nodes, (tree.getSolution r).1 = tree.path r ∧
      ((tree.isSolution num r).1 = true ↔
        ((tree.path r).flatten.toFinset.card : ℤ) = num)) ∧
    ((∀ r ∈ tree.nodes, (tree.node r).areChildrenDefined = true) →
      (tree.nodes.map fun r => (tree.getSolution r).1).Perm
          (result.sublists.filter fun s => !s.isEmpty) ∧
        tree.nodes.length = 2 ^ result.length - 1) ∧
    ∃ tree', tree.countNodes result.length = some (2 ^ result.length, tree') ∧
      ∀ r ∈ tree'.nodes, (tree'.node r).areChildrenDefined = true := by
  have inv := reached.invariant
  have valid : ∀ r ∈ tree.nodes, r < tree.size := fun _ => inv.lt_size_of_mem_nodes
  have solution : ∀ r ∈ tree.nodes, (tree.getSolution r).1 = tree.path r := fun r member =>
    (getCached_answered inv.solution (valid r member)).value.trans (solution_value _)
  refine ⟨inv.nodup_nodes, fun r member => ⟨solution r member, ?_⟩, fun full => ?_,
    inv.countNodes_eq⟩
  · have units : (tree.getUnits r).1 = (tree.path r).flatten.toFinset :=
      (getCached_answered inv.units (valid r member)).value.trans (units_value _)
    rw [isSolution, decide_eq_true_iff, units]
  · have paths := inv.map_path_nodes full
    constructor
    · rw [List.map_congr_left solution, paths]
      exact subsequences_perm result
    · rw [← length_subsequences, ← paths, List.length_map]

/-- Three components, of which one has the units of the two others. -/
theorem solutionTree_enumerates_three :
    let result : List Component := [[⟨'A'⟩], [⟨'B'⟩], [⟨'A'⟩, ⟨'B'⟩]]
    ∃ tree', (SolutionTree.succeeded result).countNodes 3 = some (8, tree') ∧
      ∀ r ∈ tree'.nodes, (tree'.node r).areChildrenDefined = true :=
  (solutionTree_enumerates [[⟨'A'⟩], [⟨'B'⟩], [⟨'A'⟩, ⟨'B'⟩]] 2 _ .succeeded).2.2.2

end MrsOptimization.Combinations
