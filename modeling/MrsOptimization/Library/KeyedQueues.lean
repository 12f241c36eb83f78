import Mathlib.Data.List.Infix
import MrsOptimization.Library.Mailboxes

/-!
# Queues that share a list, element by element

An element is taken out of the shared list where a test finds it, from the front
or from the back. If the test looks at nothing but the key, the queue of the key
loses its first or its last element, and all other queues stay as they are.
-/

namespace MrsOptimization

universe u v

variable {α : Type u} {κ : Type v} [DecidableEq κ] {key : α → κ}

/-- Removes the last element of a key. -/
def removeLast (key : α → κ) (shared : List α) (recipient : κ) : List α :=
  (removeFirst key shared.reverse recipient).reverse

theorem queueOf_reverse (shared : List α) (recipient : κ) :
    queueOf key shared.reverse recipient = (queueOf key shared recipient).reverse :=
  List.filter_reverse

theorem queueOf_removeLast (shared : List α) (recipient other : κ) :
    queueOf key (removeLast key shared recipient) other =
      if other = recipient then (queueOf key shared other).dropLast
      else queueOf key shared other := by
  rw [removeLast, queueOf_reverse, queueOf_removeFirst, queueOf_reverse]
  split
  · rw [List.tail_reverse, List.reverse_reverse]
  · rw [List.reverse_reverse]

/-- An element that a test of its key finds is the first one of its key. -/
theorem eraseP_eq_removeFirst {select : α → Bool}
    (byKey : ∀ element element', key element = key element' → select element = select element')
    {shared : List α} {found : α} (isFound : shared.find? select = some found) :
    shared.eraseP select = removeFirst key shared (key found) ∧
      (queueOf key shared (key found)).head? = some found := by
  induction shared with
  | nil => simp at isFound
  | cons element rest ih =>
      by_cases selected : select element
      · have same : element = found := by simpa [selected] using isFound
        subst same
        simp [selected, removeFirst, queueOf]
      · have later : rest.find? select = some found := by simpa [selected] using isFound
        have other : key element ≠ key found := by
          intro same
          have := List.find?_some later
          rw [byKey element found same] at selected
          contradiction
        rcases ih later with ⟨erased, first⟩
        refine ⟨?_, ?_⟩
        · rw [List.eraseP_cons_of_neg selected, erased]
          simp [removeFirst, other]
        · simpa [queueOf, other] using first

/-- The queues after an element is taken out: it was the first one of its key. -/
theorem cons_queueOf_eraseP {select : α → Bool}
    (byKey : ∀ element element', key element = key element' → select element = select element')
    {shared : List α} {found : α} (isFound : shared.find? select = some found) (recipient : κ) :
    queueOf key [found] recipient ++ queueOf key (shared.eraseP select) recipient =
      queueOf key shared recipient := by
  rcases eraseP_eq_removeFirst byKey isFound with ⟨erased, first⟩
  rw [erased, queueOf_removeFirst]
  by_cases own : recipient = key found
  · subst own
    cases elements : queueOf key shared (key found) with
    | nil => simp [elements] at first
    | cons head tail =>
        have same : head = found := by simpa [elements] using first
        simp [queueOf, same]
  · have other : key found ≠ recipient := fun same => own same.symm
    simp [queueOf, other, own]

theorem removeLast_sublist (shared : List α) (recipient : κ) :
    (removeLast key shared recipient).Sublist shared := by
  have fewer : (removeFirst key shared.reverse recipient).Sublist shared.reverse :=
    List.eraseP_sublist
  simpa [removeLast] using fewer.reverse

theorem filter_removeFirst {select : κ → Bool} {recipient : κ} (other : select recipient = false)
    (shared : List α) :
    (removeFirst key shared recipient).filter (fun element => select (key element)) =
      shared.filter fun element => select (key element) := by
  induction shared with
  | nil => rfl
  | cons element rest ih =>
      by_cases first : key element = recipient
      · have removed : removeFirst key (element :: rest) recipient = rest := by
          simp [removeFirst, first]
        have unselected : select (key element) = false := by rw [first, other]
        rw [removed, List.filter_cons_of_neg (by simp [unselected])]
      · have kept : removeFirst key (element :: rest) recipient =
            element :: removeFirst key rest recipient := by
          simp [removeFirst, first]
        rw [kept, List.filter_cons, List.filter_cons, ih]

theorem filter_removeLast {select : κ → Bool} {recipient : κ} (other : select recipient = false)
    (shared : List α) :
    (removeLast key shared recipient).filter (fun element => select (key element)) =
      shared.filter fun element => select (key element) := by
  rw [removeLast, List.filter_reverse, filter_removeFirst other, ← List.filter_reverse,
    List.reverse_reverse]

/-- Some elements are left, in their order. If the list is complete, the newest of them is the
newest of all, whichever keys one looks at. -/
structure KeepsNewest (key : α → κ) (complete : Prop) (kept all : List α) : Prop where
  sublist : kept.Sublist all
  newest : complete → ∀ select : κ → Bool,
    (kept.filter fun element => select (key element)).getLast? =
      (all.filter fun element => select (key element)).getLast?

namespace KeepsNewest

variable {complete : Prop} {earlier shared shared' all : List α}

omit [DecidableEq κ] in
theorem refl (all : List α) : KeepsNewest key complete all all :=
  ⟨List.Sublist.refl all, fun _ _ => rfl⟩

omit [DecidableEq κ] in
/-- An element is refused. -/
theorem refuse {complete' : Prop} (keeps : KeepsNewest key complete earlier all)
    (incomplete : ¬ complete') (element : α) :
    KeepsNewest key complete' earlier (all ++ [element]) :=
  ⟨keeps.sublist.trans (List.sublist_append_left all [element]),
    fun whole => absurd whole incomplete⟩

/-- An element comes in behind all others, or takes the place of the last one of its key. -/
theorem push (keeps : KeepsNewest key complete (earlier ++ shared) all) (element : α)
    (place : shared' = shared ∨ shared' = removeLast key shared (key element)) :
    KeepsNewest key complete (earlier ++ (shared' ++ [element])) (all ++ [element]) := by
  have fewer : shared'.Sublist shared := by
    rcases place with rfl | rfl
    · exact List.Sublist.refl _
    · exact removeLast_sublist shared (key element)
  refine ⟨?_, fun whole select => ?_⟩
  · rw [← List.append_assoc]
    apply List.Sublist.append_right
    exact ((List.Sublist.refl earlier).append fewer).trans keeps.sublist
  · rw [← List.append_assoc, List.filter_append, List.filter_append all]
    cases selected : select (key element) with
    | true => simp [selected]
    | false =>
        have same : shared'.filter (fun element => select (key element)) =
            shared.filter fun element => select (key element) := by
          rcases place with rfl | rfl
          · rfl
          · exact filter_removeLast selected shared
        have nothing : [element].filter (fun element => select (key element)) = [] := by
          simp [selected]
        rw [nothing, List.append_nil, List.append_nil, List.filter_append, same,
          ← List.filter_append]
        exact keeps.newest whole select

end KeepsNewest

theorem queueOf_singleton_self (element : α) : queueOf key [element] (key element) = [element] := by
  simp [queueOf]

theorem queueOf_singleton_of_ne {element : α} {recipient : κ} (other : key element ≠ recipient) :
    queueOf key [element] recipient = [] := by
  simp [queueOf, other]

end MrsOptimization
