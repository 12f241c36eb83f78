import Mathlib.Algebra.BigOperators.Group.List.Basic
import Mathlib.Algebra.BigOperators.Ring.List
import Mathlib.Algebra.Order.BigOperators.Group.List
import Mathlib.Algebra.Order.Field.Basic
import Mathlib.Order.Lattice
import Mathlib.Tactic.Abel
import Mathlib.Tactic.Ring

/-!
# Sums and maxima accumulated by loops over lists

A loop that adds up weighted values, or keeps a running maximum, is a left fold.
The lemmas below express such folds by `List.sum` and by a right fold of `max`,
and exchange the two summations of a table with conditional entries.
-/

namespace MrsOptimization

section Loops

variable {ι K : Type*}

theorem foldl_weighted_sum [CommSemiring K] (weight : K) (value : ι → K) (items : List ι)
    (acc : K × K) :
    items.foldl (fun acc item => (acc.1 + weight * value item, acc.2 + value item)) acc =
      (acc.1 + weight * (items.map value).sum, acc.2 + (items.map value).sum) := by
  induction items generalizing acc with
  | nil => simp
  | cons item rest ih =>
      rw [List.foldl_cons, ih]
      simp only [List.map_cons, List.sum_cons, Prod.mk.injEq]
      exact ⟨by ring, by ring⟩

theorem foldl_max_weighted_sum [CommSemiring K] [LinearOrder K] (weight load : ι → K)
    (items : List ι) (acc : K × K) :
    items.foldl (fun acc item => (max (load item) acc.1, acc.2 + weight item * load item)) acc =
      (items.foldl (fun maxValue item => max (load item) maxValue) acc.1,
        acc.2 + (items.map fun item => weight item * load item).sum) := by
  induction items generalizing acc with
  | nil => simp
  | cons item rest ih =>
      rw [List.foldl_cons, ih]
      simp [add_assoc]

theorem foldl_max_eq_foldr [LinearOrder K] (load : ι → K) (items : List ι) (init : K) :
    items.foldl (fun maxValue item => max (load item) maxValue) init =
      (items.map load).foldr max init := by
  induction items generalizing init with
  | nil => rfl
  | cons item rest ih =>
      rw [List.foldl_cons, ih, List.map_cons, List.foldr_cons]
      clear ih
      induction rest with
      | nil => rfl
      | cons other rest ih =>
          simp only [List.map_cons, List.foldr_cons, ih]
          exact max_left_comm _ _ _

theorem init_le_foldr_max [LinearOrder K] (items : List K) (init : K) :
    init ≤ items.foldr max init := by
  induction items with
  | nil => exact le_rfl
  | cons item rest ih => exact ih.trans (le_max_right _ _)

theorem le_foldr_max [LinearOrder K] {items : List K} {item : K} (itemMem : item ∈ items)
    (init : K) : item ≤ items.foldr max init := by
  induction items with
  | nil => simp at itemMem
  | cons head rest ih =>
      rcases List.mem_cons.mp itemMem with rfl | restMem
      · exact le_max_left _ _
      · exact (ih restMem).trans (le_max_right _ _)

theorem foldr_max_le [LinearOrder K] {items : List K} {init bound : K} (initLe : init ≤ bound)
    (itemLe : ∀ item ∈ items, item ≤ bound) : items.foldr max init ≤ bound := by
  induction items with
  | nil => exact initLe
  | cons head rest ih =>
      apply max_le
      · exact itemLe head List.mem_cons_self
      · exact ih fun item itemMem => itemLe item (List.mem_cons_of_mem head itemMem)

theorem foldr_max_mem [LinearOrder K] (items : List K) (init : K) :
    items.foldr max init = init ∨ items.foldr max init ∈ items := by
  induction items with
  | nil => exact Or.inl rfl
  | cons item rest ih =>
      rw [List.foldr_cons]
      rcases max_choice item (rest.foldr max init) with first | second
      · simp [first]
      · rw [second]
        exact ih.imp_right (List.mem_cons_of_mem item)

/-- A running minimum over the items that satisfy a condition is not above any of them, and is
one of them unless it is the initial value. -/
theorem foldl_min_spec [LinearOrder K] (selected : ι → Prop) [DecidablePred selected]
    (value : ι → K) (items : List ι) (init : K) :
    let least := items.foldl (fun minimum item =>
      if selected item then min minimum (value item) else minimum) init
    least ≤ init ∧ (∀ item ∈ items, selected item → least ≤ value item) ∧
      (least = init ∨ ∃ item ∈ items, selected item ∧ least = value item) := by
  induction items generalizing init with
  | nil => simp
  | cons head rest ih =>
      simp only [List.foldl_cons]
      by_cases this : selected head
      · simp only [if_pos this]
        rcases ih (min init (value head)) with ⟨leInit, leItem, attained⟩
        refine ⟨leInit.trans (min_le_left _ _), ?_, ?_⟩
        · intro item itemMem isSelected
          rcases List.mem_cons.mp itemMem with rfl | later
          · exact leInit.trans (min_le_right _ _)
          · exact leItem item later isSelected
        · rcases attained with same | ⟨item, itemMem, isSelected, same⟩
          · rcases min_choice init (value head) with first | second
            · exact Or.inl (same.trans first)
            · exact Or.inr ⟨head, List.mem_cons_self, this, same.trans second⟩
          · exact Or.inr ⟨item, List.mem_cons_of_mem head itemMem, isSelected, same⟩
      · simp only [if_neg this]
        rcases ih init with ⟨leInit, leItem, attained⟩
        refine ⟨leInit, ?_, ?_⟩
        · intro item itemMem isSelected
          rcases List.mem_cons.mp itemMem with rfl | later
          · exact absurd isSelected this
          · exact leItem item later isSelected
        · rcases attained with same | ⟨item, itemMem, isSelected, same⟩
          · exact Or.inl same
          · exact Or.inr ⟨item, List.mem_cons_of_mem head itemMem, isSelected, same⟩

end Loops

section ConditionalSums

variable {ι κ K : Type*} [CommSemiring K]

theorem sum_mul_ite (weight : ι → K) (holds : ι → Prop) [DecidablePred holds] (value : K)
    (items : List ι) :
    (items.map fun item => weight item * if holds item then value else 0).sum =
      value * ((items.filter holds).map weight).sum := by
  induction items with
  | nil => simp
  | cons item rest ih =>
      rw [List.map_cons, List.sum_cons, ih]
      by_cases this : holds item
      · rw [if_pos this, List.filter_cons_of_pos (by simpa using this), List.map_cons,
          List.sum_cons]
        ring
      · rw [if_neg this, List.filter_cons_of_neg (by simpa using this)]
        ring

theorem sum_ite_zero (value : ι → K) (holds : ι → Prop) [DecidablePred holds] (items : List ι) :
    (items.map fun item => if holds item then value item else 0).sum =
      ((items.filter holds).map value).sum := by
  have weighted := sum_mul_ite value holds 1 items
  simpa using weighted

/-- A table summed row by row is the table summed column by column. -/
theorem sum_exchange (weight : ι → K) (holds : κ → ι → Prop)
    [∀ column, DecidablePred (holds column)] (value : κ → K) (rows : List ι)
    (columns : List κ) :
    (rows.map fun row => weight row *
        (columns.map fun column => if holds column row then value column else 0).sum).sum =
      (columns.map fun column =>
        value column * ((rows.filter (holds column)).map weight).sum).sum := by
  induction columns with
  | nil => simp
  | cons column rest ih =>
      simp only [List.map_cons, List.sum_cons, mul_add, List.sum_map_add, ih]
      rw [sum_mul_ite weight (holds column)]

end ConditionalSums

/-- The places of distinct items are the numbers below their count. -/
theorem sum_map_idxOf {ι K : Type*} [DecidableEq ι] [AddCommMonoid K] {items : List ι}
    (nodup : items.Nodup) (value : ℕ → K) :
    (items.map fun item => value (items.idxOf item)).sum =
      ((List.range items.length).map value).sum := by
  have places : items.map items.idxOf = List.range items.length := by
    apply List.ext_getElem
    · simp
    · intro index _ _
      simp [nodup.idxOf_getElem]
  rw [← places, List.map_map]
  rfl

/-- Some item of positive weight has a value that is not below the weighted average. -/
theorem exists_average_le {ι K : Type*} [Field K] [LinearOrder K] [IsStrictOrderedRing K]
    {items : List ι} {weight value : ι → K} {bound : K}
    (nonneg : ∀ item ∈ items, 0 ≤ weight item) (total : 0 < (items.map weight).sum)
    (covers : bound ≤ (items.map fun item => value item * weight item).sum) :
    ∃ item ∈ items, 0 < weight item ∧ bound / (items.map weight).sum ≤ value item := by
  by_contra below
  push Not at below
  have smaller : (items.map fun item => value item * weight item).sum <
      (items.map fun item => bound / (items.map weight).sum * weight item).sum := by
    apply List.sum_lt_sum
    · intro item itemMem
      rcases (nonneg item itemMem).eq_or_lt with zero | positive
      · simp [← zero]
      · exact mul_le_mul_of_nonneg_right (below item itemMem positive).le positive.le
    · have some : (items.map fun _ => (0 : K)).sum < (items.map weight).sum := by simpa using total
      rcases List.exists_lt_of_sum_lt _ _ some with ⟨item, itemMem, positive⟩
      exact ⟨item, itemMem, mul_lt_mul_of_pos_right (below item itemMem positive) positive⟩
  rw [List.sum_map_mul_left, div_mul_cancel₀ _ total.ne'] at smaller
  exact smaller.not_ge covers

/-- Changing the summand of one item changes the sum by the difference. -/
theorem sum_map_update {ι K : Type*} [DecidableEq ι] [AddCommGroup K] {items : List ι}
    (nodup : items.Nodup) (value : ι → K) {item : ι} (itemMem : item ∈ items) (new : K) :
    (items.map (Function.update value item new)).sum =
      (items.map value).sum + (new - value item) := by
  induction items with
  | nil => simp at itemMem
  | cons head rest ih =>
      have headFresh := (List.nodup_cons.mp nodup).1
      have restNodup := (List.nodup_cons.mp nodup).2
      simp only [List.map_cons, List.sum_cons]
      by_cases here : item = head
      · subst here
        have unchanged : rest.map (Function.update value item new) = rest.map value := by
          apply List.map_congr_left
          intro other otherMem
          apply Function.update_of_ne
          rintro rfl
          exact headFresh otherMem
        simp only [unchanged, Function.update_self]
        abel
      · have restMem : item ∈ rest := by simpa [here] using itemMem
        simp only [ih restNodup restMem, Function.update_of_ne (Ne.symm here)]
        abel

/-- One summand goes away, and every other one grows by a bounded amount. -/
theorem sum_add_le_of_exchange {ι : Type*} (before after : ι → ℕ) {removed : ι} {bound : ℕ}
    {items : List ι} (mem : removed ∈ items) (small : after removed ≤ bound)
    (grown : ∀ item ∈ items, after item ≤ before item + bound) :
    (items.map after).sum + before removed ≤ (items.map before).sum + items.length * bound := by
  have total : ∀ rest : List ι, (∀ item ∈ rest, after item ≤ before item + bound) →
      (rest.map after).sum ≤ (rest.map before).sum + rest.length * bound := by
    intro rest
    induction rest with
    | nil => simp
    | cons head rest ih =>
        intro grown
        have headGrown := grown head List.mem_cons_self
        have restGrown := ih fun item mem => grown item (List.mem_cons_of_mem head mem)
        simp only [List.map_cons, List.sum_cons, List.length_cons, add_mul, one_mul]
        omega
  induction items with
  | nil => simp at mem
  | cons head rest ih =>
      have headGrown := grown head List.mem_cons_self
      have restGrown : ∀ item ∈ rest, after item ≤ before item + bound :=
        fun item mem => grown item (List.mem_cons_of_mem head mem)
      simp only [List.map_cons, List.sum_cons, List.length_cons, add_mul, one_mul]
      by_cases here : removed = head
      · subst here
        have := total rest restGrown
        omega
      · have := ih (by simpa [here] using mem) restGrown
        omega

end MrsOptimization
