import Mathlib.Data.List.Nodup
import Mathlib.Logic.Function.Basic

/-!
# Independent queues whose elements expire

`Mailboxes` is the specification: one first-in-first-out queue per recipient,
whose elements are stamped with the time they were sent and dropped when their
lifetime is over. `queueOf` is the representation: all queues share one list and
an element belongs to the queue of its key. Removing the first element of a key
from the shared list takes the head off its queue and leaves the others alone.
-/

namespace MrsOptimization

universe u v

variable {α : Type u} {κ : Type v}

/-- An element and the time at which it was sent. -/
structure Stamped (α : Type u) where
  content : α
  sentAt : ℕ

/-- One queue for each recipient, and the time. -/
structure Mailboxes (κ : Type v) (α : Type u) where
  clock : ℕ
  box : κ → List (Stamped α)

namespace Mailboxes

def empty : Mailboxes κ α :=
  ⟨0, fun _ => []⟩

def send [DecidableEq κ] (copies : List (κ × α)) (mail : Mailboxes κ α) : Mailboxes κ α where
  clock := mail.clock
  box recipient := mail.box recipient ++
    (copies.filter (·.1 = recipient)).map fun copy => ⟨copy.2, mail.clock⟩

/-- Takes the oldest element out of the queue of one recipient. -/
def receive [DecidableEq κ] (recipient : κ) (mail : Mailboxes κ α) :
    Option (Stamped α) × Mailboxes κ α :=
  ((mail.box recipient).head?,
    { mail with box := Function.update mail.box recipient (mail.box recipient).tail })

def tick (lifetime : ℕ) (mail : Mailboxes κ α) : Mailboxes κ α where
  clock := mail.clock + 1
  box recipient :=
    (mail.box recipient).filter fun element => mail.clock + 1 < element.sentAt + lifetime

end Mailboxes

section SharedList

variable [DecidableEq κ] (key : α → κ)

def queueOf (shared : List α) (recipient : κ) : List α :=
  shared.filter fun element => key element = recipient

def removeFirst (shared : List α) (recipient : κ) : List α :=
  shared.eraseP fun element => key element = recipient

variable {key}

theorem queueOf_append (shared added : List α) (recipient : κ) :
    queueOf key (shared ++ added) recipient =
      queueOf key shared recipient ++ queueOf key added recipient :=
  List.filter_append shared added

theorem head?_queueOf (shared : List α) (recipient : κ) :
    (queueOf key shared recipient).head? = shared.find? fun element => key element = recipient :=
  List.head?_filter

theorem queueOf_filter (keep : α → Bool) (shared : List α) (recipient : κ) :
    queueOf key (shared.filter keep) recipient = (queueOf key shared recipient).filter keep := by
  simp only [queueOf, List.filter_filter, Bool.and_comm]

theorem queueOf_removeFirst (shared : List α) (recipient other : κ) :
    queueOf key (removeFirst key shared recipient) other =
      if other = recipient then (queueOf key shared other).tail else queueOf key shared other := by
  induction shared with
  | nil => simp [queueOf, removeFirst]
  | cons element rest ih =>
      by_cases first : key element = recipient
      · have removed : removeFirst key (element :: rest) recipient = rest := by
          simp [removeFirst, first]
        rw [removed]
        by_cases same : other = recipient
        · simp [queueOf, first, same]
        · have different : key element ≠ other := fun equal => same (equal.symm.trans first)
          simp [queueOf, same, different]
      · have kept : removeFirst key (element :: rest) recipient =
            element :: removeFirst key rest recipient := by
          simp [removeFirst, first]
        rw [kept, queueOf, List.filter_cons, ← queueOf, ih]
        by_cases same : other = recipient
        · subst same
          simp [queueOf, first]
        · by_cases own : key element = other
          · simp [queueOf, same, own]
          · simp [queueOf, same, own]

/-- When every element has an identity of its own, removing the element that was found is
removing the first one of its key. -/
theorem eraseP_identity {ι : Type v} [DecidableEq ι] {identity : α → ι} {shared : List α}
    (nodup : (shared.map identity).Nodup) {recipient : κ} {found : α}
    (isFound : shared.find? (fun element => key element = recipient) = some found) :
    shared.eraseP (fun element => identity element = identity found) =
      removeFirst key shared recipient := by
  induction shared with
  | nil => simp at isFound
  | cons element rest ih =>
      rw [List.map_cons, List.nodup_cons] at nodup
      by_cases first : key element = recipient
      · have equal : element = found := by simpa [first] using isFound
        subst equal
        simp [removeFirst, first]
      · have later : rest.find? (fun element => key element = recipient) = some found := by
          simpa [first] using isFound
        have different : identity element ≠ identity found := fun same =>
          nodup.1 (same ▸ List.mem_map_of_mem (List.mem_of_find?_eq_some later))
        have restErased := ih nodup.2 later
        simpa [removeFirst, first, different] using restErased

theorem mem_eraseP_identity {ι : Type v} [DecidableEq ι] {identity : α → ι} {shared : List α}
    (nodup : (shared.map identity).Nodup) {removed : ι} {element : α} :
    element ∈ shared.eraseP (fun other => identity other = removed) ↔
      element ∈ shared ∧ identity element ≠ removed := by
  induction shared with
  | nil => simp
  | cons head rest ih =>
      rw [List.map_cons, List.nodup_cons] at nodup
      by_cases first : identity head = removed
      · have unique : ∀ other ∈ rest, identity other ≠ removed := fun other otherMem same =>
          nodup.1 (first.trans same.symm ▸ List.mem_map_of_mem otherMem)
        rw [List.eraseP_cons_of_pos (by simpa using first), List.mem_cons]
        constructor
        · exact fun member => ⟨Or.inr member, unique element member⟩
        · rintro ⟨rfl | member, different⟩
          · exact absurd first different
          · exact member
      · rw [List.eraseP_cons_of_neg (by simpa using first), List.mem_cons, List.mem_cons,
          ih nodup.2]
        constructor
        · rintro (rfl | ⟨member, different⟩)
          · exact ⟨Or.inl rfl, first⟩
          · exact ⟨Or.inr member, different⟩
        · rintro ⟨rfl | member, different⟩
          · exact Or.inl rfl
          · exact Or.inr ⟨member, different⟩

/-- Removing all elements of a sublist by identity keeps exactly the others. -/
theorem filter_identity {ι : Type v} [DecidableEq ι] {identity : α → ι} {shared : List α}
    (nodup : (shared.map identity).Nodup) (dead : α → Bool) :
    (shared.filter fun element =>
        !(shared.filter dead).any fun other => identity other = identity element) =
      shared.filter fun element => !dead element := by
  have unique := List.inj_on_of_nodup_map nodup
  apply List.filter_congr
  intro element elementMem
  rw [Bool.not_inj_iff, Bool.eq_iff_iff, List.any_eq_true]
  constructor
  · rintro ⟨other, otherMem, same⟩
    rw [List.mem_filter] at otherMem
    rw [← unique otherMem.1 elementMem (of_decide_eq_true same)]
    exact otherMem.2
  · intro isDead
    exact ⟨element, List.mem_filter.mpr ⟨elementMem, isDead⟩, decide_eq_true rfl⟩

end SharedList

end MrsOptimization
