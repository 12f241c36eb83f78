import Mathlib.Algebra.Group.Nat.Defs
import Mathlib.Data.List.Sublists

/-!
# The non-empty subsequences of a list

They are enumerated in the order of a tree whose nodes choose the next element:
first those that begin with the head of the list, then those of its tail.
-/

namespace MrsOptimization

variable {α : Type}

/-- The non-empty subsequences; equal elements at different places are told apart. -/
def subsequences : List α → List (List α)
  | [] => []
  | a :: rest => [a] :: (subsequences rest).map (a :: ·) ++ subsequences rest

theorem cons_subsequences_perm (l : List α) : ([] :: subsequences l).Perm l.sublists := by
  refine List.Perm.trans ?_ (List.sublists_perm_sublists' l).symm
  induction l with
  | nil => exact List.Perm.refl _
  | cons a rest ih =>
      have without : ([] :: subsequences (a :: rest)).Perm
          ([] :: (subsequences rest ++ [a] :: (subsequences rest).map (a :: ·))) :=
        List.perm_append_comm.cons []
      rw [List.sublists'_cons]
      exact without.trans (ih.append (ih.map (a :: ·)))

theorem ne_nil_of_mem_subsequences {l s : List α} (member : s ∈ subsequences l) : s ≠ [] := by
  induction l with
  | nil => cases member
  | cons a rest ih =>
      rw [subsequences, List.mem_append, List.mem_cons, List.mem_map] at member
      rcases member with (rfl | ⟨tail, -, rfl⟩) | later
      · exact List.cons_ne_nil _ _
      · exact List.cons_ne_nil _ _
      · exact ih later

theorem subsequences_perm (l : List α) :
    (subsequences l).Perm (l.sublists.filter fun s => !s.isEmpty) := by
  have kept : (subsequences l).filter (fun s => !s.isEmpty) = subsequences l :=
    List.filter_eq_self.mpr fun s member => by
      simpa using ne_nil_of_mem_subsequences member
  have filtered := (cons_subsequences_perm l).filter fun s => !s.isEmpty
  rwa [List.filter_cons_of_neg (by simp), kept] at filtered

theorem length_subsequences (l : List α) : (subsequences l).length = 2 ^ l.length - 1 := by
  have lengths := (cons_subsequences_perm l).length_eq
  rw [List.length_cons, List.length_sublists] at lengths
  omega

end MrsOptimization
