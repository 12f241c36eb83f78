import MrsOptimization.Library.Subsequences
import Mathlib.Data.List.Nodup
import Mathlib.Data.Nat.Bitwise
import Mathlib.Tactic.Linarith

/-!
# Sublists selected by bit masks

Position `j` of a list is selected by a mask when bit `j` is set. `select` and
`maskOf` are mutually inverse between the masks below `2 ^ length` and the
sublists of a duplicate-free list, so a loop over all masks meets every subset
exactly once. With or without duplicates, the masks are as many as the positions
can be chosen from (`map_select_perm`).
-/

namespace MrsOptimization

universe u

variable {α : Type u}

/-- The elements of the list at the positions whose bits are set in the mask. -/
def select : List α → ℕ → List α
  | [], _ => []
  | head :: tail, mask =>
      if mask.testBit 0 then head :: select tail (mask / 2) else select tail (mask / 2)

def maskOf (p : α → Prop) [DecidablePred p] : List α → ℕ
  | [] => 0
  | head :: tail => (if p head then 1 else 0) + 2 * maskOf p tail

theorem select_sublist (items : List α) (mask : ℕ) : (select items mask).Sublist items := by
  induction items generalizing mask with
  | nil => exact List.Sublist.refl []
  | cons head tail ih =>
      rw [select]
      split
      · exact (ih (mask / 2)).cons_cons head
      · exact (ih (mask / 2)).cons head

theorem maskOf_lt (p : α → Prop) [DecidablePred p] (items : List α) :
    maskOf p items < 2 ^ items.length := by
  induction items with
  | nil => simp [maskOf]
  | cons head tail ih =>
      rw [maskOf, List.length_cons, pow_succ]
      split <;> omega

theorem maskOf_congr {p q : α → Prop} [DecidablePred p] [DecidablePred q] {items : List α}
    (same : ∀ item ∈ items, p item ↔ q item) : maskOf p items = maskOf q items := by
  induction items with
  | nil => rfl
  | cons head tail ih =>
      rw [maskOf, maskOf, ih fun item itemMem => same item (List.mem_cons_of_mem head itemMem)]
      simp only [same head List.mem_cons_self]

theorem select_maskOf (p : α → Prop) [DecidablePred p] (items : List α) :
    select items (maskOf p items) = items.filter p := by
  induction items with
  | nil => rfl
  | cons head tail ih =>
      have half : maskOf p (head :: tail) / 2 = maskOf p tail := by
        rw [maskOf]
        split <;> omega
      rw [select, half, ih]
      by_cases holds : p head
      · simp [maskOf, holds, Nat.testBit_zero]
      · simp [maskOf, holds, Nat.testBit_zero]

theorem maskOf_select [DecidableEq α] {items : List α} (nodup : items.Nodup) {mask : ℕ}
    (below : mask < 2 ^ items.length) : maskOf (· ∈ select items mask) items = mask := by
  induction items generalizing mask with
  | nil =>
      rw [List.length_nil, pow_zero] at below
      simp only [maskOf]
      omega
  | cons head tail ih =>
      rw [List.nodup_cons] at nodup
      have halfBelow : mask / 2 < 2 ^ tail.length := by
        rw [List.length_cons, pow_succ] at below
        omega
      have headNotSelected : head ∉ select tail (mask / 2) := fun selected =>
        nodup.1 ((select_sublist tail (mask / 2)).subset selected)
      have rest : maskOf (· ∈ select (head :: tail) mask) tail = mask / 2 := by
        rw [← ih nodup.2 halfBelow]
        apply maskOf_congr
        intro item itemMem
        have different : item ≠ head := fun equal => nodup.1 (equal ▸ itemMem)
        rw [select]
        split <;> simp [different]
      rw [maskOf, rest, select]
      by_cases odd : mask % 2 = 1
      · simp only [Nat.testBit_zero, odd, decide_true, if_true, List.mem_cons, true_or]
        omega
      · simp only [Nat.testBit_zero, odd, decide_false, Bool.false_eq_true, if_false,
          headNotSelected]
        omega

theorem select_eq_nil_iff {items : List α} {mask : ℕ} (below : mask < 2 ^ items.length) :
    select items mask = [] ↔ mask = 0 := by
  induction items generalizing mask with
  | nil =>
      rw [List.length_nil, pow_zero] at below
      simp only [select, true_iff]
      omega
  | cons head tail ih =>
      have halfBelow : mask / 2 < 2 ^ tail.length := by
        rw [List.length_cons, pow_succ] at below
        omega
      rw [select]
      by_cases odd : mask % 2 = 1
      · simp only [Nat.testBit_zero, odd, decide_true, if_true, reduceCtorEq, false_iff]
        omega
      · simp only [Nat.testBit_zero, odd, decide_false, Bool.false_eq_true, if_false,
          ih halfBelow]
        omega

/-- A mask of few bits selects among the first elements only. -/
theorem select_take {items : List α} {width mask : ℕ} (below : mask < 2 ^ width) :
    select (items.take width) mask = select items mask := by
  induction items generalizing width mask with
  | nil => rw [List.take_nil]
  | cons head tail ih =>
      cases width with
      | zero =>
          have zero : mask = 0 := by simpa using below
          rw [zero, List.take_zero]
          exact ((select_eq_nil_iff (Nat.two_pow_pos _)).mpr rfl).symm
      | succ width =>
          have halfBelow : mask / 2 < 2 ^ width := by
            rw [pow_succ] at below
            omega
          rw [List.take_succ_cons, select, select, ih halfBelow]

theorem filter_mem_of_sublist [DecidableEq α] {part items : List α} (nodup : items.Nodup)
    (sub : part.Sublist items) : items.filter (· ∈ part) = part := by
  induction sub with
  | slnil => rfl
  | @cons rest items head sub ih =>
      rw [List.nodup_cons] at nodup
      have outside : head ∉ rest := fun member => nodup.1 (sub.subset member)
      simpa [outside] using ih nodup.2
  | @cons_cons rest items head sub ih =>
      rw [List.nodup_cons] at nodup
      rw [List.filter_cons_of_pos (by simp)]
      congr 1
      rw [← ih nodup.2]
      apply List.filter_congr
      intro item itemMem
      have different : item ≠ head := fun equal => nodup.1 (equal ▸ itemMem)
      rw [ih nodup.2]
      simp [different]

/-- The masks of some bits select the non-empty sublists of as many first elements. -/
theorem exists_select_iff [DecidableEq α] {items part : List α} (nodup : items.Nodup) {width : ℕ}
    (enough : width ≤ items.length) :
    (∃ mask, (1 ≤ mask ∧ mask < 2 ^ width) ∧ select items mask = part) ↔
      part ≠ [] ∧ part.Sublist (items.take width) := by
  have length : (items.take width).length = width := List.length_take_of_le enough
  constructor
  · rintro ⟨mask, ⟨lower, upper⟩, rfl⟩
    rw [← select_take upper]
    refine ⟨?_, select_sublist _ mask⟩
    rw [Ne, select_eq_nil_iff (length.symm ▸ upper)]
    omega
  · rintro ⟨nonempty, sub⟩
    have bound := maskOf_lt (· ∈ part) (items.take width)
    have below : maskOf (· ∈ part) (items.take width) < 2 ^ width := by rwa [length] at bound
    have selected : select (items.take width) (maskOf (· ∈ part) (items.take width)) = part :=
      (select_maskOf _ _).trans (filter_mem_of_sublist (nodup.sublist (List.take_sublist _ _)) sub)
    refine ⟨maskOf (· ∈ part) (items.take width), ⟨?_, below⟩, ?_⟩
    · have positive := (select_eq_nil_iff bound).not.mp (selected.symm ▸ nonempty)
      omega
    · rw [← select_take below, selected]

/-- Testing the bits from the lowest up selects the same elements. -/
theorem select_eq_filterMap_range (items : List α) (mask : ℕ) :
    select items mask =
      (List.range items.length).filterMap fun j => if mask.testBit j then items[j]? else none := by
  induction items generalizing mask with
  | nil => rfl
  | cons head tail ih =>
      rw [List.length_cons, List.range_succ_eq_map, List.filterMap_cons, List.filterMap_map,
        select, ih]
      by_cases odd : mask.testBit 0 = true
      · simp [odd, Nat.testBit_succ]
      · simp [odd, Nat.testBit_succ]

/-- The numbers below a bound are first the even ones and then the odd ones. -/
theorem range_two_mul_perm (bound : ℕ) :
    (List.range (2 * bound)).Perm
      ((List.range bound).map (2 * ·) ++ (List.range bound).map (2 * · + 1)) := by
  induction bound with
  | zero => exact List.Perm.refl []
  | succ bound ih =>
      have longer : List.range (2 * (bound + 1)) =
          List.range (2 * bound) ++ [2 * bound, 2 * bound + 1] := by
        rw [mul_add, mul_one, List.range_add]
        rfl
      have moved : ((List.range bound).map (2 * · + 1) ++ [2 * bound, 2 * bound + 1]).Perm
          ([2 * bound] ++ ((List.range bound).map (2 * · + 1) ++ [2 * bound + 1])) :=
        List.perm_append_comm_assoc _ [2 * bound] [2 * bound + 1]
      rw [longer]
      apply (ih.append_right _).trans
      simpa [List.range_succ] using moved.append_left ((List.range bound).map (2 * ·))

theorem map_select_range_perm {α : Type u} (items : List α) :
    ((List.range (2 ^ items.length)).map (select items)).Perm items.sublists' := by
  induction items with
  | nil => exact List.Perm.refl [[]]
  | cons head tail ih =>
      have even : select (head :: tail) ∘ (2 * ·) = select tail := by
        funext mask
        simp [select]
      have odd : select (head :: tail) ∘ (2 * · + 1) = List.cons head ∘ select tail := by
        funext mask
        have half : (2 * mask + 1) / 2 = mask := by omega
        simp [select, half]
      rw [List.length_cons, pow_succ', List.sublists'_cons]
      apply ((range_two_mul_perm _).map _).trans
      rw [List.map_append, List.map_map, List.map_map, even, odd, ← List.map_map]
      exact ih.append (ih.map _)

/-- The masks other than zero select the non-empty subsequences, each of them once. -/
theorem map_select_perm {α : Type} (items : List α) :
    ((List.range' 1 (2 ^ items.length - 1)).map (select items)).Perm (subsequences items) := by
  have zero : select items 0 = [] := (select_eq_nil_iff (Nat.two_pow_pos _)).mpr rfl
  have first : List.range (2 ^ items.length) = 0 :: List.range' 1 (2 ^ items.length - 1) := by
    rcases Nat.exists_eq_succ_of_ne_zero (Nat.two_pow_pos items.length).ne' with ⟨last, equal⟩
    rw [equal, List.range_eq_range']
    rfl
  have all := map_select_range_perm items
  rw [first, List.map_cons, zero] at all
  apply List.Perm.cons_inv (a := [])
  exact all.trans ((List.sublists_perm_sublists' items).symm.trans
    (cons_subsequences_perm items).symm)

end MrsOptimization
