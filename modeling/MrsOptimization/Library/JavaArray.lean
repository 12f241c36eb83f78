import Mathlib.Data.List.Basic
import Mathlib.Tactic.Linarith

/-!
# Java arrays

An array holds fewer than `2 ^ 31` values, so its length is an `int`. Access
outside of the array fails, and `arraycopy` either copies all values or fails.
-/

namespace MrsOptimization

universe u

@[ext]
structure JavaArray (α : Type u) where
  values : List α
  length_lt : values.length < 2 ^ 31
deriving DecidableEq, Repr

namespace JavaArray

variable {α : Type u}

/-- `array.length` -/
def length (array : JavaArray α) : BitVec 32 :=
  BitVec.ofNat 32 array.values.length

/-- A number of values that fit into an array. -/
theorem toInt_ofNat {n : ℕ} (fits : n < 2 ^ 31) : (BitVec.ofNat 32 n).toInt = n := by
  rw [BitVec.toInt_ofNat']
  apply Int.bmod_eq_of_le
  · omega
  · omega

@[simp]
theorem toInt_length (array : JavaArray α) : array.length.toInt = array.values.length :=
  toInt_ofNat array.length_lt

theorem values_eq_nil {array : JavaArray α} (zero : array.length = 0) : array.values = [] := by
  have toInt := toInt_length array
  rw [zero] at toInt
  apply List.length_eq_zero_iff.mp
  simpa using toInt.symm

theorem toNat_toInt_length (array : JavaArray α) :
    array.length.toInt.toNat = array.values.length := by
  rw [toInt_length, Int.toNat_natCast]

def empty : JavaArray α :=
  ⟨[], by simp⟩

def map {β : Type u} (f : α → β) (array : JavaArray α) : JavaArray β :=
  ⟨array.values.map f, by simpa using array.length_lt⟩

/-- `new T[length]`, which fails for a negative length. -/
def ofLength (default : α) (length : BitVec 32) : Option (JavaArray α) :=
  if 0 ≤ length.toInt then
    some ⟨List.replicate length.toInt.toNat default, by
      have := length.toInt_lt
      simp only [List.length_replicate]
      omega⟩
  else none

/-- `array[index]` -/
def get (array : JavaArray α) (index : ℤ) : Option α :=
  if 0 ≤ index then array.values[index.toNat]? else none

/-- `array[index] = value` -/
def set (array : JavaArray α) (index : ℤ) (value : α) : Option (JavaArray α) :=
  if 0 ≤ index ∧ index < array.values.length then
    some ⟨array.values.set index.toNat value, by simpa using array.length_lt⟩
  else none

/-- `values` with `added` in the place of the values from `position` on. -/
def overwrite (values added : List α) (position : ℕ) : List α :=
  values.take position ++ added ++ values.drop (position + added.length)

theorem length_overwrite {values added : List α} {position : ℕ}
    (fits : position + added.length ≤ values.length) :
    (overwrite values added position).length = values.length := by
  simp only [overwrite, List.length_append, List.length_take, List.length_drop]
  omega

theorem take_overwrite_add {values added : List α} {position : ℕ}
    (inside : position ≤ values.length) :
    (overwrite values added position).take (position + added.length) =
      values.take position ++ added := by
  rw [overwrite, List.take_left' (by simp [inside])]

theorem take_set_succ {values : List α} {index : ℕ} (inside : index < values.length) (value : α) :
    (values.set index value).take (index + 1) = values.take index ++ [value] := by
  rw [List.take_succ_eq_append_getElem (by simpa using inside), List.getElem_set_self,
    List.take_set_of_le (Nat.le_refl index)]

/-- `System.arraycopy(source, sourcePosition, target, position, length)`: the target after it. -/
def arraycopy (source : JavaArray α) (sourcePosition : ℤ) (target : JavaArray α)
    (position length : ℤ) : Option (JavaArray α) :=
  if inside : 0 ≤ sourcePosition ∧ 0 ≤ position ∧ 0 ≤ length ∧
      sourcePosition + length ≤ source.values.length ∧
      position + length ≤ target.values.length then
    some ⟨overwrite target.values
      ((source.values.drop sourcePosition.toNat).take length.toNat) position.toNat, by
        rw [length_overwrite]
        · exact target.length_lt
        · simp only [List.length_take, List.length_drop]
          omega⟩
  else none

variable {array : JavaArray α}

theorem get_eq_some {index : ℕ} {value : α} (found : array.values[index]? = some value) :
    array.get index = some value := by
  simp [get, found]

theorem set_natCast {index : ℕ} (inside : index < array.values.length) (value : α) :
    ∃ array', array.set index value = some array' ∧
      array'.values = array.values.set index value := by
  refine ⟨⟨array.values.set index value, by simpa using array.length_lt⟩, ?_, rfl⟩
  simp [set, inside]

/-- What a copy inside of both arrays leaves. -/
theorem arraycopy_natCast (source target : JavaArray α) {sourcePosition position length : ℕ}
    (inSource : sourcePosition + length ≤ source.values.length)
    (inTarget : position + length ≤ target.values.length) :
    ∃ target', arraycopy source sourcePosition target position length = some target' ∧
      target'.values = overwrite target.values
        ((source.values.drop sourcePosition).take length) position := by
  refine ⟨_, dif_pos ⟨?_, ?_, ?_, ?_, ?_⟩, ?_⟩
  all_goals first | omega | simp

/-- A copy of all values onto as many. -/
theorem arraycopy_all {source target : JavaArray α}
    (lengths : target.values.length = source.values.length) :
    arraycopy source 0 target 0 source.values.length = some source := by
  rcases @arraycopy_natCast _ source target 0 0 source.values.length (by omega) (by omega) with
    ⟨target', copied, values⟩
  have same : target' = source := by
    apply JavaArray.ext
    simp [values, overwrite, lengths]
  rw [← same]
  simpa [same] using copied

/-- Only the part that is copied matters. -/
theorem arraycopy_congr {source source' : JavaArray α} (target : JavaArray α)
    {sourcePosition sourcePosition' length : ℕ} (position : ℤ)
    (inside : sourcePosition + length ≤ source.values.length)
    (inside' : sourcePosition' + length ≤ source'.values.length)
    (same : (source.values.drop sourcePosition).take length =
      (source'.values.drop sourcePosition').take length) :
    arraycopy source sourcePosition target position length =
      arraycopy source' sourcePosition' target position length := by
  by_cases inTarget : 0 ≤ position ∧ position + length ≤ target.values.length
  · have conditions : (0 : ℤ) ≤ sourcePosition ∧ 0 ≤ position ∧ (0 : ℤ) ≤ length ∧
        (sourcePosition : ℤ) + length ≤ source.values.length ∧
        position + length ≤ target.values.length := by omega
    have conditions' : (0 : ℤ) ≤ sourcePosition' ∧ 0 ≤ position ∧ (0 : ℤ) ≤ length ∧
        (sourcePosition' : ℤ) + length ≤ source'.values.length ∧
        position + length ≤ target.values.length := by omega
    simp only [arraycopy, dif_pos conditions, dif_pos conditions', Int.toNat_natCast, same]
  · rw [arraycopy, arraycopy, dif_neg (by omega), dif_neg (by omega)]

end JavaArray

end MrsOptimization
