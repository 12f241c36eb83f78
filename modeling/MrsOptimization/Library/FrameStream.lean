import Mathlib.Algebra.Order.BigOperators.Group.List
import Mathlib.Algebra.Order.Ring.Nat

/-!
# Streams of frames

A receiver finds out from the front of its buffer how long the first frame is.
More of the stream does not change what it found, so the frames of a stream do
not depend on the pieces in which the stream arrives.
-/

namespace MrsOptimization

universe u

variable {β : Type u}

/-- What stands at the front of a buffer. -/
inductive Front
  | incomplete
  | frame (length : ℕ)
  | invalid
deriving DecidableEq, Repr

structure Framing (β : Type u) where
  front : List β → Front
  pos : ∀ {buffer n}, front buffer = .frame n → 0 < n
  inside : ∀ {buffer n}, front buffer = .frame n → n ≤ buffer.length
  stable : ∀ {buffer}, front buffer ≠ .incomplete →
    ∀ more, front (buffer ++ more) = front buffer

namespace Framing

variable (framing : Framing β)

/-- The frames at the front of a buffer, and what is left. -/
def split (buffer : List β) : List (List β) × List β :=
  match _found : framing.front buffer with
  | .frame n =>
    (buffer.take n :: (split (buffer.drop n)).1, (split (buffer.drop n)).2)
  | _ => ([], buffer)
termination_by buffer.length
decreasing_by
  all_goals
    have := framing.pos _found
    have := framing.inside _found
    rw [List.length_drop]
    omega

variable {framing} {buffer : List β}

theorem split_of_frame {n : ℕ} (found : framing.front buffer = .frame n) :
    framing.split buffer =
      (buffer.take n :: (framing.split (buffer.drop n)).1, (framing.split (buffer.drop n)).2) := by
  rw [split]
  split
  · next length found' =>
      rw [found] at found'
      cases found'
      rfl
  · next other => exact absurd found (other n)

theorem split_of_no_frame (none_ : ∀ n, framing.front buffer ≠ .frame n) :
    framing.split buffer = ([], buffer) := by
  rw [split]
  split
  · next n found => exact absurd found (none_ n)
  · rfl

theorem split_nil : framing.split ([] : List β) = ([], []) := by
  apply split_of_no_frame
  intro n found
  have := framing.pos found
  have := framing.inside found
  rw [List.length_nil] at this
  omega

/-- What holds of a buffer if it holds behind the first frame, and of a buffer without one. -/
theorem split_induction {holds : List β → Prop}
    (frame : ∀ buffer n, framing.front buffer = .frame n → holds (buffer.drop n) → holds buffer)
    (rest : ∀ buffer, (∀ n, framing.front buffer ≠ .frame n) → holds buffer) (buffer : List β) :
    holds buffer := by
  induction buffer using Framing.split.induct framing with
  | case1 buffer n found ih => exact frame buffer n found ih
  | case2 buffer other => exact rest buffer other

/-- Nothing is lost and nothing is added. -/
theorem split_flatten (buffer : List β) :
    (framing.split buffer).1.flatten ++ (framing.split buffer).2 = buffer := by
  induction buffer using @split_induction _ framing with
  | frame buffer n found ih =>
      rw [split_of_frame found, List.flatten_cons, List.append_assoc, ih, List.take_append_drop]
  | rest buffer none_ =>
      rw [split_of_no_frame none_]
      rfl

/-- No frame is left over. -/
theorem split_rest (buffer : List β) (n : ℕ) :
    framing.front (framing.split buffer).2 ≠ .frame n := by
  induction buffer using @split_induction _ framing with
  | frame buffer m found ih =>
      rw [split_of_frame found]
      exact ih
  | rest buffer none_ =>
      rw [split_of_no_frame none_]
      exact none_ n

/-- The frames of a longer stream: first those that are complete already. -/
theorem split_append (buffer more : List β) :
    framing.split (buffer ++ more) =
      ((framing.split buffer).1 ++ (framing.split ((framing.split buffer).2 ++ more)).1,
        (framing.split ((framing.split buffer).2 ++ more)).2) := by
  induction buffer using @split_induction _ framing with
  | frame buffer n found ih =>
      have inside := framing.inside found
      have longer : framing.front (buffer ++ more) = .frame n := by
        rw [framing.stable (by rw [found]; simp), found]
      rw [split_of_frame longer, List.take_append_of_le_length inside,
        List.drop_append_of_le_length inside, ih, split_of_frame found]
      rfl
  | rest buffer none_ =>
      rw [split_of_no_frame none_]
      rfl

/-- Frames that are sent one after another are found as they were sent. -/
theorem split_frames {frames : List (List β)}
    (whole : ∀ frame ∈ frames, framing.front frame = .frame frame.length) (rest : List β) :
    framing.split (frames.flatten ++ rest) =
      (frames ++ (framing.split rest).1, (framing.split rest).2) := by
  induction frames with
  | nil => rfl
  | cons frame later ih =>
      have here := whole frame (List.mem_cons_self ..)
      have found : framing.front (frame ++ (later.flatten ++ rest)) = .frame frame.length := by
        rw [framing.stable (by rw [here]; simp), here]
      rw [List.flatten_cons, List.append_assoc, split_of_frame found, List.take_left,
        List.drop_left, ih fun frame member => whole frame (List.mem_cons_of_mem _ member)]
      rfl

/-- Bytes behind the frames are taken for frames, or are left over. -/
theorem split_eq_iff {sent : List (List β × List β)}
    (whole : ∀ message ∈ sent, framing.front message.1 = .frame message.1.length) :
    framing.split (sent.map fun message => message.1 ++ message.2).flatten =
        (sent.map Prod.fst, []) ↔
      ∀ message ∈ sent, message.2 = [] := by
  constructor
  · intro split
    have stream := @split_flatten _ framing
      (sent.map fun message => message.1 ++ message.2).flatten
    rw [split, List.append_nil] at stream
    have lengths := congrArg List.length stream
    simp only [List.length_flatten, List.map_map, Function.comp_def, List.length_append,
      List.sum_map_add, Nat.left_eq_add] at lengths
    intro message member
    have part : message.2.length ≤ (sent.map fun message => message.2.length).sum :=
      List.le_sum_of_mem (List.mem_map_of_mem member)
    exact List.length_eq_zero_iff.mp (by omega)
  · intro plain
    have same : sent.map (fun message => message.1 ++ message.2) = sent.map Prod.fst := by
      apply List.map_congr_left
      intro message member
      rw [plain message member, List.append_nil]
    have frames : ∀ frame ∈ sent.map Prod.fst, framing.front frame = .frame frame.length := by
      intro frame member
      rcases List.mem_map.mp member with ⟨message, here, rfl⟩
      exact whole message here
    have split := split_frames frames []
    rw [split_nil, List.append_nil, List.append_nil] at split
    rw [same, split]

/-- A stream that has become invalid stays so. -/
theorem invalid_append {buffer : List β}
    (invalid : framing.front (framing.split buffer).2 = .invalid) (more : List β) :
    framing.front (framing.split (buffer ++ more)).2 = .invalid := by
  have later : framing.front ((framing.split buffer).2 ++ more) = .invalid := by
    rw [framing.stable (by rw [invalid]; simp), invalid]
  have none_ : ∀ n, framing.front ((framing.split buffer).2 ++ more) ≠ .frame n := by
    simp [later]
  rw [split_append, split_of_no_frame none_]
  exact later

end Framing

end MrsOptimization
