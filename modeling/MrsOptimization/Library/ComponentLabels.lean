import Mathlib.Data.Set.Insert
import Mathlib.Logic.Relation

/-!
# Labels of connected components, one vertex at a time

A labelling of a set of vertices is right when two vertices have the same label
exactly if a path inside the set connects them. `Labels.insert` says how to keep a
labelling right when a vertex is added: all labels of its neighbours have to become
one label, which no other component may have.
-/

namespace MrsOptimization

variable {α β : Type} {adj : α → α → Prop} {vertices : Set α} {label label' : α → β}

/-- A step between adjacent vertices of the set. -/
def Linked (adj : α → α → Prop) (vertices : Set α) (a b : α) : Prop :=
  a ∈ vertices ∧ b ∈ vertices ∧ adj a b

def Connected (adj : α → α → Prop) (vertices : Set α) : α → α → Prop :=
  Relation.ReflTransGen (Linked adj vertices)

theorem Connected.mono {more : Set α} (subset : vertices ⊆ more) {a b : α}
    (connected : Connected adj vertices a b) : Connected adj more a b :=
  Relation.ReflTransGen.mono
    (fun _ _ step => ⟨subset step.1, subset step.2.1, step.2.2⟩) a b connected

/-- The two halves of a right labelling, in the form that is easy to keep. -/
structure Labels (adj : α → α → Prop) (vertices : Set α) (label : α → β) : Prop where
  closed : ∀ a ∈ vertices, ∀ b ∈ vertices, adj a b → label a = label b
  sound : ∀ a ∈ vertices, ∀ b ∈ vertices, label a = label b → Connected adj vertices a b

theorem Labels.empty : Labels adj ∅ label where
  closed _ none := none.elim
  sound _ none := none.elim

theorem Labels.label_eq_iff (labels : Labels adj vertices label) {a b : α} (aMem : a ∈ vertices)
    (bMem : b ∈ vertices) : label a = label b ↔ Connected adj vertices a b := by
  refine ⟨labels.sound a aMem b bMem, fun connected => ?_⟩
  induction connected with
  | refl => rfl
  | tail _ step ih =>
      exact (ih step.1).trans (labels.closed _ step.1 _ step.2.1 step.2.2)

/-- Some neighbour of the new vertex has the label of `a`. -/
def Touches (adj : α → α → Prop) (vertices : Set α) (label : α → β) (new a : α) : Prop :=
  ∃ n ∈ vertices, adj new n ∧ label n = label a

theorem Touches.connected {new a : α} (labels : Labels adj vertices label)
    (touches : Touches adj vertices label new a) (aMem : a ∈ vertices) :
    Connected adj (insert new vertices) new a := by
  rcases touches with ⟨n, nMem, adjacent, same⟩
  have step : Linked adj (insert new vertices) new n :=
    ⟨Set.mem_insert new vertices, Set.mem_insert_of_mem new nMem, adjacent⟩
  exact (Relation.ReflTransGen.single step).trans
    ((labels.sound n nMem a aMem same).mono (Set.subset_insert new vertices))

theorem Connected.symm (symmetric : ∀ a b, adj a b → adj b a) {a b : α}
    (connected : Connected adj vertices a b) : Connected adj vertices b a := by
  induction connected with
  | refl => exact .refl
  | tail _ step ih =>
      exact Relation.ReflTransGen.head ⟨step.2.1, step.1, symmetric _ _ step.2.2⟩ ih

theorem Labels.insert {new : α} (labels : Labels adj vertices label)
    (symmetric : ∀ a b, adj a b → adj b a) (irreflexive : ¬adj new new)
    (merged : ∀ a ∈ vertices, Touches adj vertices label new a → label' a = label' new)
    (kept : ∀ a ∈ vertices, ¬Touches adj vertices label new a →
      label' a = label a ∧ label a ≠ label' new) :
    Labels adj (Set.insert new vertices) label' := by
  classical
  have subset : vertices ⊆ Set.insert new vertices := Set.subset_insert new vertices
  have relabelled : ∀ a ∈ vertices, ∀ b ∈ vertices, label a = label b → label' a = label' b := by
    intro a aMem b bMem same
    by_cases touches : Touches adj vertices label new a
    · have touchesB : Touches adj vertices label new b := by
        rwa [Touches, ← same]
      rw [merged a aMem touches, merged b bMem touchesB]
    · have touchesB : ¬Touches adj vertices label new b := by
        rwa [Touches, ← same]
      rw [(kept a aMem touches).1, (kept b bMem touchesB).1, same]
  have touches_of_new : ∀ a ∈ vertices, label' a = label' new →
      Touches adj vertices label new a := by
    intro a aMem same
    by_contra apart
    exact (kept a aMem apart).2 ((kept a aMem apart).1.symm.trans same)
  constructor
  · rintro a (rfl | aMem) b (rfl | bMem) adjacent
    · exact absurd adjacent irreflexive
    · exact (merged b bMem ⟨b, bMem, adjacent, rfl⟩).symm
    · exact merged a aMem ⟨a, aMem, symmetric _ _ adjacent, rfl⟩
    · exact relabelled a aMem b bMem (labels.closed a aMem b bMem adjacent)
  · rintro a (rfl | aMem) b (rfl | bMem) same
    · exact .refl
    · exact (touches_of_new b bMem same.symm).connected labels bMem
    · exact ((touches_of_new a aMem same).connected labels aMem).symm symmetric
    · by_cases touches : Touches adj vertices label new a
      · have toNew := (touches.connected labels aMem).symm symmetric
        have touchesB := touches_of_new b bMem (same.symm.trans (merged a aMem touches))
        exact toNew.trans (touchesB.connected labels bMem)
      · by_cases touchesB : Touches adj vertices label new b
        · exact absurd (touches_of_new a aMem (same.trans (merged b bMem touchesB))) touches
        · rw [(kept a aMem touches).1, (kept b bMem touchesB).1] at same
          exact (labels.sound a aMem b bMem same).mono subset

end MrsOptimization
