import Mathlib.Data.Finset.Basic
import Mathlib.Data.List.Nodup
import Mathlib.Data.List.Perm.Basic

/-!
# Loops that update one cell after another

A loop visits the cells of a table in some order and overwrites each with a value
computed from the table at that time. It has the effect of updating all cells at
once if and only if its result does not depend on the order, and this is so if
and only if the new value of a cell stays the same however many of the other
cells have been updated already (`process_perm_iff`).
-/

namespace MrsOptimization

universe u v

variable {ι : Type u} {σ : Type v} [DecidableEq ι]

/-- The cells in the given order, each updated from the cells as they are then. -/
def process (change : (ι → σ) → ι → σ) (order : List ι) (cells : ι → σ) : ι → σ :=
  order.foldl (fun cells item => Function.update cells item (change cells item)) cells

/-- Some cells, all of them updated from the same table. -/
def simultaneous (change : (ι → σ) → ι → σ) (items : Finset ι) (cells : ι → σ) : ι → σ :=
  fun item => if item ∈ items then change cells item else cells item

variable {change : (ι → σ) → ι → σ} {cells : ι → σ}

theorem process_append (first rest : List ι) :
    process change (first ++ rest) cells = process change rest (process change first cells) := by
  simp [process]

theorem process_concat (first : List ι) (item : ι) :
    process change (first ++ [item]) cells =
      Function.update (process change first cells) item
        (change (process change first cells) item) := by
  simp [process]

theorem process_cons (item : ι) (rest : List ι) :
    process change (item :: rest) cells =
      process change rest (Function.update cells item (change cells item)) := rfl

theorem process_of_notMem {order : List ι} {item : ι} (outside : item ∉ order) :
    process change order cells item = cells item := by
  induction order generalizing cells with
  | nil => rfl
  | cons head rest ih =>
      rw [List.mem_cons, not_or] at outside
      rw [process_cons, ih outside.2, Function.update_of_ne outside.1]

/-- A cell keeps the value that it got when it was visited. -/
theorem process_visited {first rest : List ι} {item : ι} (later : item ∉ rest) :
    process change (first ++ item :: rest) cells item =
      change (process change first cells) item := by
  rw [process_append, process_cons, process_of_notMem later, Function.update_self]

theorem process_eq_simultaneous {order : List ι} (nodup : order.Nodup)
    (undisturbed : ∀ item ∈ order, ∀ others ⊆ order.toFinset.erase item,
      change (simultaneous change others cells) item = change cells item) :
    process change order cells = simultaneous change order.toFinset cells := by
  induction order using List.reverseRecOn with
  | nil =>
      funext item
      simp [process, simultaneous]
  | append_singleton first last ih =>
      rw [← List.concat_eq_append, List.nodup_concat] at nodup
      have before : process change first cells = simultaneous change first.toFinset cells := by
        apply ih nodup.2
        intro item itemMem others sub
        apply undisturbed item (List.mem_append_left _ itemMem)
        apply sub.trans
        apply Finset.erase_subset_erase
        intro other otherMem
        rw [List.mem_toFinset] at otherMem ⊢
        exact List.mem_append_left _ otherMem
      have lastSame : change (simultaneous change first.toFinset cells) last =
          change cells last := by
        apply undisturbed last (by simp)
        intro other otherMem
        rw [List.mem_toFinset] at otherMem
        have different : other ≠ last := fun same => nodup.1 (same ▸ otherMem)
        simp [different, otherMem]
      rw [process_concat, before, lastSame]
      funext item
      by_cases isLast : item = last
      · subst isLast
        simp [simultaneous]
      · simp [simultaneous, isLast]

/-- If the order is without effect then every order updates all cells at once: each of them
may come first. -/
theorem process_eq_simultaneous_of_perm {items : List ι} (nodup : items.Nodup)
    (independent : ∀ order : List ι, order.Perm items →
      process change order cells = process change items cells) :
    process change items cells = simultaneous change items.toFinset cells := by
  funext item
  by_cases itemMem : item ∈ items
  · have first := independent (item :: items.erase item) (List.perm_cons_erase itemMem).symm
    rw [← first, process_cons, process_of_notMem nodup.not_mem_erase, Function.update_self]
    simp [simultaneous, itemMem]
  · rw [process_of_notMem itemMem]
    simp [simultaneous, itemMem]

/-- Some other items can come before an item in an order of all items. -/
theorem exists_perm_after {items : List ι} (nodup : items.Nodup) {item : ι}
    (itemMem : item ∈ items) {others : Finset ι} (sub : others ⊆ items.toFinset.erase item) :
    ∃ rest, item ∉ rest ∧ (∀ other ∈ others, other ∉ item :: rest) ∧
      (others.toList ++ item :: rest).Perm items := by
  have own : ∀ other ∈ others, other ≠ item ∧ other ∈ items := by
    intro other otherMem
    simpa using sub otherMem
  let rest := items.filter fun other => other ≠ item ∧ other ∉ others
  have outside : ∀ other ∈ others, other ∉ item :: rest := by
    intro other otherMem
    simp [rest, otherMem, (own other otherMem).1]
  have notLater : item ∉ rest := by simp [rest]
  have orderNodup : (others.toList ++ item :: rest).Nodup := by
    rw [List.nodup_append, List.nodup_cons]
    refine ⟨others.nodup_toList, ⟨notLater, nodup.filter _⟩, ?_⟩
    rintro other otherMem _ restMem rfl
    exact outside other (Finset.mem_toList.mp otherMem) restMem
  refine ⟨rest, notLater, outside, ?_⟩
  rw [List.perm_ext_iff_of_nodup orderNodup nodup]
  intro other
  by_cases same : other = item
  · simp [same, itemMem]
  · by_cases otherMem : other ∈ others
    · simp [otherMem, (own other otherMem).2]
    · simp [rest, same, otherMem]

/-- The order is without effect if and only if no update of other cells changes the value that
a cell gets. -/
theorem process_perm_iff {items : List ι} (nodup : items.Nodup) :
    (∀ order : List ι, order.Perm items →
      process change order cells = process change items cells) ↔
      ∀ item ∈ items, ∀ others ⊆ items.toFinset.erase item,
        change (simultaneous change others cells) item = change cells item := by
  constructor
  · intro independent item itemMem others sub
    have all := process_eq_simultaneous_of_perm nodup independent
    rcases exists_perm_after nodup itemMem sub with ⟨rest, notLater, outside, perm⟩
    have ordered := (independent _ perm).trans all
    have visited : process change others.toList cells = simultaneous change others cells := by
      funext other
      by_cases otherMem : other ∈ others
      · have kept := congrFun ordered other
        rw [process_append, process_of_notMem (outside other otherMem)] at kept
        have own : other ≠ item ∧ other ∈ items := by simpa using sub otherMem
        simp [kept, simultaneous, otherMem, own.2]
      · rw [process_of_notMem (by simpa using otherMem)]
        simp [simultaneous, otherMem]
    have value := congrFun ordered item
    rw [process_visited notLater, visited] at value
    simpa [simultaneous, itemMem] using value
  · intro undisturbed order perm
    rw [process_eq_simultaneous nodup undisturbed, ← List.toFinset_eq_of_perm _ _ perm]
    apply process_eq_simultaneous (perm.nodup_iff.mpr nodup)
    intro item itemMem others sub
    rw [List.toFinset_eq_of_perm _ _ perm] at sub
    exact undisturbed item (perm.mem_iff.mp itemMem) others sub

end MrsOptimization
