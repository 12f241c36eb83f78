import Mathlib.Data.Finset.Card
import Mathlib.Tactic.Linarith

/-!
# Counting in batches

Items are collected in a set; whenever the set has reached a given size, all of it
is counted as one batch and the set is emptied. An item that arrives again after its
batch would be counted twice. When none does, the batches are bounded by the items.
-/

namespace MrsOptimization

/-- The items waiting for the next batch, those of earlier batches, and the number of these. -/
structure Batches (α : Type) where
  pending : Finset α
  counted : Finset α
  batches : ℕ

namespace Batches

variable {α : Type} {size : ℕ} {seen : Finset α} {state : Batches α}

def empty : Batches α := ⟨∅, ∅, 0⟩

/-- No item is in two batches, and every batch has at least the given size. -/
structure Sound (size : ℕ) (seen : Finset α) (state : Batches α) : Prop where
  pending_subset : state.pending ⊆ seen
  counted_subset : state.counted ⊆ seen
  apart : Disjoint state.pending state.counted
  bounded : size * state.batches ≤ state.counted.card

theorem sound_empty : Sound size seen empty where
  pending_subset := Finset.empty_subset seen
  counted_subset := Finset.empty_subset seen
  apart := Finset.disjoint_empty_left _
  bounded := by simp [empty]

theorem Sound.mono {more : Finset α} (sound : Sound size seen state) (subset : seen ⊆ more) :
    Sound size more state where
  pending_subset := sound.pending_subset.trans subset
  counted_subset := sound.counted_subset.trans subset
  apart := sound.apart
  bounded := sound.bounded

theorem Sound.batches_le (sound : Sound size seen state) : size * state.batches ≤ seen.card :=
  sound.bounded.trans (Finset.card_le_card sound.counted_subset)

variable [DecidableEq α]

def add (size : ℕ) (state : Batches α) (items : Finset α) : Batches α :=
  if size ≤ (state.pending ∪ items).card then
    ⟨∅, state.counted ∪ (state.pending ∪ items), state.batches + 1⟩
  else ⟨state.pending ∪ items, state.counted, state.batches⟩

/-- Items that are not in an earlier batch keep the state sound. -/
theorem Sound.add {items : Finset α} (sound : Sound size seen state) (known : items ⊆ seen)
    (fresh : Disjoint items state.counted) : Sound size seen (state.add size items) := by
  have subset : state.pending ∪ items ⊆ seen := Finset.union_subset sound.pending_subset known
  have apart : Disjoint (state.pending ∪ items) state.counted :=
    Finset.disjoint_union_left.mpr ⟨sound.apart, fresh⟩
  rw [Batches.add]
  split
  · rename_i full
    refine ⟨Finset.empty_subset seen, Finset.union_subset sound.counted_subset subset,
      Finset.disjoint_empty_left _, ?_⟩
    calc size * (state.batches + 1) = size * state.batches + size := Nat.mul_succ _ _
      _ ≤ state.counted.card + (state.pending ∪ items).card := Nat.add_le_add sound.bounded full
      _ = (state.counted ∪ (state.pending ∪ items)).card :=
          (Finset.card_union_of_disjoint apart.symm).symm
  · exact ⟨subset, sound.counted_subset, apart, sound.bounded⟩

end Batches

end MrsOptimization
