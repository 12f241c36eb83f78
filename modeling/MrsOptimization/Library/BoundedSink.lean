import Mathlib.Data.List.Basic

/-!
# Sinks with room for so many values

What is put into a sink is written behind what it holds, if there is room for all
of it. Several puts in a row write everything if everything fits, and else the
longest run of them that fits.
-/

namespace MrsOptimization

universe u

structure Sink (β : Type u) where
  written : List β
  room : ℕ
deriving DecidableEq, Repr

namespace Sink

variable {β ε : Type}

/-- A sink after values for which it has room. -/
def extended (sink : Sink β) (added : List β) : Sink β :=
  ⟨sink.written ++ added, sink.room - added.length⟩

/-- Put values into the sink, all of them or none. -/
def put (full : ε) (added : List β) : EStateM ε (Sink β) Unit := fun sink =>
  if added.length ≤ sink.room then .ok () (sink.extended added) else .error full sink

/-- The chunks that are put before the first one for which there is no room. -/
def fitting : ℕ → List (List β) → List (List β)
  | _, [] => []
  | room, chunk :: rest =>
      if chunk.length ≤ room then chunk :: fitting (room - chunk.length) rest else []

theorem fitting_initial (room : ℕ) (chunks : List (List β)) : fitting room chunks <+: chunks := by
  induction chunks generalizing room with
  | nil => simp [fitting]
  | cons chunk rest ih =>
      simp only [fitting]
      split
      · simpa using ih _
      · simp

theorem length_fitting_le (room : ℕ) (chunks : List (List β)) :
    (fitting room chunks).flatten.length ≤ room := by
  induction chunks generalizing room with
  | nil => simp [fitting]
  | cons chunk rest ih =>
      simp only [fitting]
      split
      · have := ih (room - chunk.length)
        simp only [List.flatten_cons, List.length_append]
        omega
      · simp

/-- All chunks are put if there is room for all of them, and else those that fit. -/
theorem forM_put (full : ε) (chunks : List (List β)) (sink : Sink β) :
    chunks.forM (put full) sink =
      if chunks.flatten.length ≤ sink.room then .ok () (sink.extended chunks.flatten)
      else .error full (sink.extended (fitting sink.room chunks).flatten) := by
  induction chunks generalizing sink with
  | nil =>
      change EStateM.Result.ok () sink = _
      simp [extended]
  | cons chunk rest ih =>
      change EStateM.bind (put full chunk) (fun _ => rest.forM (put full)) sink = _
      by_cases fits : chunk.length ≤ sink.room
      · have first : put full chunk sink = .ok () (sink.extended chunk) := if_pos fits
        have later : chunk.length + rest.flatten.length ≤ sink.room ↔
            rest.flatten.length ≤ sink.room - chunk.length := by omega
        simp only [EStateM.bind, first, ih]
        simp [-List.length_flatten, extended, fitting, fits, later, Nat.sub_sub]
      · have first : put full chunk sink = .error full sink := if_neg fits
        have tooMuch : ¬ chunk.length + rest.flatten.length ≤ sink.room := by omega
        simp [-List.length_flatten, EStateM.bind, first, extended, fitting, fits, tooMuch]

end Sink

end MrsOptimization
