import Mathlib.Data.List.Basic

/-!
# Loops that keep the best candidate

A scan over a list that replaces its candidate whenever the next element
improves on the best value so far. The first of several equally good elements
wins, and nothing is selected if no element improves on the initial value.
-/

namespace MrsOptimization

variable {α V : Type*}

/-- The candidate and the best value after the remaining elements. -/
def pickBest (improves : V → V → Bool) (value : α → V) : List α → Option α × V → Option α × V
  | [], best => best
  | item :: rest, best =>
      pickBest improves value rest
        (if improves best.2 (value item) then (some item, value item) else best)

variable {improves : V → V → Bool} {value : α → V}

theorem pickBest_some (trans : ∀ x y z, improves x y → improves y z → improves x z)
    {init : V} {items : List α} {item : α}
    (picked : (pickBest improves value items (none, init)).1 = some item) :
    item ∈ items ∧ improves init (value item) := by
  suffices general : ∀ (rest : List α) (best : Option α × V),
      (best = (none, init) ∨ ∃ older ∈ items, best = (some older, value older) ∧
        improves init (value older)) → rest ⊆ items →
      (pickBest improves value rest best).1 = some item →
      item ∈ items ∧ improves init (value item) from
    general items (none, init) (Or.inl rfl) (List.Subset.refl items) picked
  clear picked
  intro rest
  induction rest with
  | nil =>
      intro best valid _ picked
      rcases valid with rfl | ⟨older, olderMem, rfl, better⟩
      · simp [pickBest] at picked
      · simp only [pickBest, Option.some.injEq] at picked
        subst picked
        exact ⟨olderMem, better⟩
  | cons head rest ih =>
      intro best valid subset picked
      have headMem : head ∈ items := subset List.mem_cons_self
      have restSubset : rest ⊆ items := fun _ mem => subset (List.mem_cons_of_mem head mem)
      rw [pickBest] at picked
      apply ih _ _ restSubset picked
      by_cases improved : improves best.2 (value head)
      · right
        refine ⟨head, headMem, if_pos improved, ?_⟩
        rcases valid with rfl | ⟨older, olderMem, rfl, better⟩
        · exact improved
        · exact trans _ _ _ better improved
      · simpa [improved] using valid

theorem pickBest_isSome (items : List α) (best : Option α × V) (some : best.1.isSome) :
    (pickBest improves value items best).1.isSome := by
  induction items generalizing best with
  | nil => exact some
  | cons head rest ih =>
      rw [pickBest]
      apply ih
      split
      · rfl
      · exact some

theorem pickBest_none {init : V} {items : List α}
    (picked : (pickBest improves value items (none, init)).1 = none) :
    ∀ item ∈ items, improves init (value item) = false := by
  induction items with
  | nil => simp
  | cons head rest ih =>
      rw [pickBest] at picked
      by_cases improved : improves init (value head)
      · have isSome : (pickBest improves value rest (some head, value head)).1.isSome :=
          pickBest_isSome rest (some head, value head) rfl
        simp [improved] at picked
        simp [picked] at isSome
      · simp only [improved] at picked
        intro item itemMem
        rcases List.mem_cons.mp itemMem with rfl | restMem
        · simpa using improved
        · exact ih picked item restMem

end MrsOptimization
