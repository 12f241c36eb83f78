import MrsOptimization.Control.MowerBrains
import MrsOptimization.Library.Sums
import Mathlib.Algebra.Order.Floor.Ring
import Mathlib.Data.Rat.Floor
import Mathlib.Data.Set.Finite.Lemmas

/-!
# The eight sectors of a scan

`Ranger8Signal.setRanges360` reduces the ranges of a full turn to the smallest
range in each of eight sectors. A sector reaches thirty degrees to both sides of
its centre, and its bounds are rounded down to beams. Sectors overlap when the
scan has at least 24 beams, and then no beam is lost (`setRanges360_spec`).
-/

namespace MrsOptimization

/-- All eight ranges of a `Ranger8Signal`. -/
structure Ranger8Ranges (K : Type) extends Ranger8Signal K where
  right : K
  left : K
  rearRight : K
  rearLeft : K
  rear : K

/-- The sectors in the order of their centres. -/
inductive Sector where
  | rear
  | rearRight
  | right
  | frontRight
  | front
  | frontLeft
  | left
  | rearLeft
  deriving DecidableEq

def Sector.index : Sector → ℕ
  | .rear => 0
  | .rearRight => 1
  | .right => 2
  | .frontRight => 3
  | .front => 4
  | .frontLeft => 5
  | .left => 6
  | .rearLeft => 7

namespace Ranger8Ranges

variable {K : Type} [Field K] [LinearOrder K] [FloorRing K]

def sector (signal : Ranger8Ranges K) : Sector → K
  | .rear => signal.rear
  | .rearRight => signal.rearRight
  | .right => signal.right
  | .frontRight => signal.frontRight
  | .front => signal.front
  | .frontLeft => signal.frontLeft
  | .left => signal.left
  | .rearLeft => signal.rearLeft

def angleStep (samples : ℕ) : K := 360 / samples

def fovHalf : K := 30

/-- `fromI[i]`. -/
def fromI (K : Type) [Field K] [LinearOrder K] [FloorRing K] (samples i : ℕ) : ℤ :=
  let index := ⌊((i * 45 - fovHalf) / angleStep samples : K)⌋
  if index < 0 then index + samples else index

/-- `toI[i]`. -/
def toI (K : Type) [Field K] [LinearOrder K] [FloorRing K] (samples i : ℕ) : ℤ :=
  ⌊((i * 45 + fovHalf) / angleStep samples : K)⌋

/-- `resetRanges`, with `Double.MAX_VALUE` for `maxValue`. -/
def resetRanges (maxValue : K) : Ranger8Ranges K :=
  ⟨⟨maxValue, maxValue, maxValue⟩, maxValue, maxValue, maxValue, maxValue, maxValue⟩

/-- The range of beam `i` is taken into account; sector 0 starts from the end of the scan. -/
def addRange (samples : ℕ) (signal : Ranger8Ranges K) (i : ℕ) (range : K) : Ranger8Ranges K where
  rear :=
    if fromI K samples 0 < i ∨ i < toI K samples 0 then min signal.rear range else signal.rear
  rearRight :=
    if fromI K samples 1 < i ∧ i < toI K samples 1 then min signal.rearRight range
    else signal.rearRight
  right :=
    if fromI K samples 2 < i ∧ i < toI K samples 2 then min signal.right range else signal.right
  frontRight :=
    if fromI K samples 3 < i ∧ i < toI K samples 3 then min signal.frontRight range
    else signal.frontRight
  front :=
    if fromI K samples 4 < i ∧ i < toI K samples 4 then min signal.front range else signal.front
  frontLeft :=
    if fromI K samples 5 < i ∧ i < toI K samples 5 then min signal.frontLeft range
    else signal.frontLeft
  left :=
    if fromI K samples 6 < i ∧ i < toI K samples 6 then min signal.left range else signal.left
  rearLeft :=
    if fromI K samples 7 < i ∧ i < toI K samples 7 then min signal.rearLeft range
    else signal.rearLeft

def setRanges360 (maxValue : K) (ranges : List K) : Ranger8Ranges K :=
  ranges.zipIdx.foldl (fun signal beam => addRange ranges.length signal beam.2 beam.1)
    (resetRanges maxValue)

/-- Beam `i` belongs to a sector. -/
def Covers (K : Type) [Field K] [LinearOrder K] [FloorRing K] (samples i : ℕ) : Sector → Prop
  | .rear => fromI K samples 0 < i ∨ i < toI K samples 0
  | s => fromI K samples s.index < i ∧ i < toI K samples s.index

instance (samples i : ℕ) : DecidablePred (Covers K samples i)
  | .rear => inferInstanceAs (Decidable (_ ∨ _))
  | .rearRight | .right | .frontRight | .front | .frontLeft | .left | .rearLeft =>
      inferInstanceAs (Decidable (_ ∧ _))

omit [Field K] [LinearOrder K] [FloorRing K] in
theorem sector_resetRanges (maxValue : K) (s : Sector) :
    (resetRanges maxValue).sector s = maxValue := by
  cases s <;> rfl

theorem sector_addRange (samples : ℕ) (signal : Ranger8Ranges K) (i : ℕ) (range : K)
    (s : Sector) :
    (addRange samples signal i range).sector s =
      if Covers K samples i s then min (signal.sector s) range else signal.sector s := by
  cases s <;> rfl

/-- A sector ends up with the smallest of its ranges, or as it was reset. -/
theorem sector_setRanges360 (maxValue : K) (ranges : List K) (s : Sector) :
    let value := (setRanges360 maxValue ranges).sector s
    value ≤ maxValue ∧
      (∀ i (below : i < ranges.length), Covers K ranges.length i s → value ≤ ranges[i]) ∧
      (value = maxValue ∨ ∃ i, ∃ below : i < ranges.length,
        Covers K ranges.length i s ∧ value = ranges[i]) := by
  have folded : (setRanges360 maxValue ranges).sector s =
      ranges.zipIdx.foldl (fun minimum beam =>
        if Covers K ranges.length beam.2 s then min minimum beam.1 else minimum) maxValue := by
    have loop : ∀ (beams : List (K × ℕ)) (signal : Ranger8Ranges K),
        (beams.foldl (fun signal beam => addRange ranges.length signal beam.2 beam.1)
            signal).sector s =
          beams.foldl (fun minimum beam =>
            if Covers K ranges.length beam.2 s then min minimum beam.1 else minimum)
              (signal.sector s) := by
      intro beams
      induction beams with
      | nil => simp
      | cons beam rest ih =>
          intro signal
          rw [List.foldl_cons, ih, sector_addRange, List.foldl_cons]
    rw [setRanges360, loop, sector_resetRanges]
  have spec := foldl_min_spec (fun beam : K × ℕ => Covers K ranges.length beam.2 s) Prod.fst
    ranges.zipIdx maxValue
  rw [← folded] at spec
  rcases spec with ⟨leInit, leItem, attained⟩
  refine ⟨leInit, ?_, ?_⟩
  · intro i below covers
    exact leItem (ranges[i], i) (by simp [List.mem_zipIdx_iff_getElem?, below]) covers
  · rcases attained with same | ⟨⟨range, i⟩, beamMem, covers, same⟩
    · exact Or.inl same
    · rcases List.mem_zipIdx' beamMem with ⟨below, rangeEq⟩
      exact Or.inr ⟨i, below, covers, same.trans rangeEq⟩

section Bounds

variable [IsStrictOrderedRing K] {samples : ℕ}

/-- Rounding an angle down to a beam leaves it below a later beam. -/
theorem floor_angle_lt_iff (positive : 0 < samples) (angle i : ℤ) :
    ⌊(angle / angleStep samples : K)⌋ < i ↔ angle * samples < 360 * i := by
  have count : (0 : K) < samples := Nat.cast_pos.mpr positive
  have step : (0 : K) < angleStep samples := by
    unfold angleStep
    positivity
  rw [Int.floor_lt, div_lt_iff₀ step, angleStep, mul_div_assoc', lt_div_iff₀ count,
    mul_comm (i : K)]
  exact_mod_cast Iff.rfl

omit [IsStrictOrderedRing K] in
theorem fromI_eq (i : ℕ) :
    fromI K samples i =
      let index := ⌊(((45 * i - 30 : ℤ) : K) / angleStep samples)⌋
      if index < 0 then index + samples else index := by
  have bound : (i * 45 - fovHalf : K) = ((45 * i - 30 : ℤ) : K) := by
    push_cast [fovHalf]
    ring
  rw [fromI, bound]

theorem fromI_rear_lt_iff (positive : 0 < samples) {i : ℕ} :
    fromI K samples 0 < i ↔ 330 * (samples : ℤ) < 360 * i := by
  rw [fromI_eq]
  dsimp only
  rw [if_pos ((floor_angle_lt_iff positive _ _).mpr (by simpa using positive)),
    ← lt_sub_iff_add_lt, floor_angle_lt_iff positive]
  constructor <;> intro <;> push_cast at * <;> linarith

theorem fromI_lt_iff (positive : 0 < samples) {sector i : ℕ} (front : 0 < sector) :
    fromI K samples sector < i ↔ (45 * sector - 30) * (samples : ℤ) < 360 * i := by
  have nonneg : ¬⌊((45 * sector - 30 : ℤ) : K) / angleStep samples⌋ < 0 := by
    rw [floor_angle_lt_iff positive, mul_zero, not_lt]
    apply mul_nonneg
    · omega
    · exact Int.natCast_nonneg _
  rw [fromI_eq]
  dsimp only
  rw [if_neg nonneg, floor_angle_lt_iff positive]

theorem lt_toI_iff (positive : 0 < samples) {sector i : ℕ} :
    i < toI K samples sector ↔ 360 * ((i : ℤ) + 1) ≤ (45 * sector + 30) * samples := by
  have bound : (sector * 45 + fovHalf : K) = ((45 * sector + 30 : ℤ) : K) := by
    push_cast [fovHalf]
    ring
  rw [toI, bound, ← Int.add_one_le_iff, ← not_lt, floor_angle_lt_iff positive, not_lt]

theorem covers_rear_iff (positive : 0 < samples) {i : ℕ} :
    Covers K samples i .rear ↔
      330 * (samples : ℤ) < 360 * i ∨ 360 * ((i : ℤ) + 1) ≤ 30 * samples := by
  rw [Covers, fromI_rear_lt_iff positive, lt_toI_iff positive]
  norm_num

theorem covers_iff (positive : 0 < samples) {i : ℕ} {s : Sector} (front : s ≠ .rear) :
    Covers K samples i s ↔ (45 * s.index - 30) * (samples : ℤ) < 360 * i ∧
      360 * ((i : ℤ) + 1) ≤ (45 * s.index + 30) * samples := by
  have sector : Covers K samples i s ↔
      fromI K samples s.index < i ∧ i < toI K samples s.index := by
    cases s <;> first | exact absurd rfl front | rfl
  have index : 0 < s.index := by
    cases s <;> first | exact absurd rfl front | decide
  rw [sector, fromI_lt_iff positive index, lt_toI_iff positive]

/-- Two neighbouring sectors share a beam if a beam takes fifteen degrees at most. -/
theorem exists_covers (many : 24 ≤ samples) (i : ℕ) :
    ∃ s, Covers K samples i s := by
  have positive : 0 < samples := by omega
  by_contra lost
  push Not at lost
  have rear := lost .rear
  have rearRight := lost .rearRight
  have right := lost .right
  have frontRight := lost .frontRight
  have front := lost .front
  have frontLeft := lost .frontLeft
  have left := lost .left
  have rearLeft := lost .rearLeft
  rw [covers_rear_iff positive] at rear
  rw [covers_iff positive (by decide)] at rearRight right frontRight front frontLeft left rearLeft
  simp only [Sector.index] at *
  omega

/-- Beam `i` stands strictly within thirty degrees of the centre of a sector. -/
def Faces (K : Type) [Field K] [LinearOrder K] (samples i : ℕ) (s : Sector) : Prop :=
  ∃ turns : ℤ, |(360 * i / samples - 45 * s.index + 360 * turns : K)| < 30

omit [FloorRing K] in
theorem faces_of_bounds (positive : 0 < samples) {i : ℕ} {s : Sector} (turns : ℤ)
    (above : (45 * s.index - 360 * turns - 30) * (samples : ℤ) < 360 * i)
    (below : 360 * (i : ℤ) < (45 * s.index - 360 * turns + 30) * samples) :
    Faces K samples i s := by
  have count : (0 : K) < samples := Nat.cast_pos.mpr positive
  have above' : ((45 * s.index - 360 * turns - 30) * samples : K) < 360 * i := by
    exact_mod_cast above
  have below' : (360 * i : K) < (45 * s.index - 360 * turns + 30) * samples := by
    exact_mod_cast below
  rw [← lt_div_iff₀ count] at above'
  rw [← div_lt_iff₀ count] at below'
  refine ⟨turns, ?_⟩
  rw [abs_lt]
  constructor <;> linarith

theorem Covers.faces (positive : 0 < samples) {i : ℕ} (below : i < samples) {s : Sector}
    (covers : Covers K samples i s) : Faces K samples i s := by
  by_cases rear : s = .rear
  · subst rear
    rw [covers_rear_iff positive] at covers
    rcases covers with last | first
    · apply faces_of_bounds positive (-1) <;> simp only [Sector.index] <;> push_cast <;> linarith
    · apply faces_of_bounds positive 0 <;> simp only [Sector.index] <;> push_cast <;> linarith
  · rw [covers_iff positive rear] at covers
    apply faces_of_bounds positive 0
    · simpa using covers.1
    · simp only [mul_zero, sub_zero]
      linarith [covers.2]

/-- No obstacle is lost, and none is put in a wrong sector. -/
theorem setRanges360_spec (maxValue : K) (ranges : List K) (many : 24 ≤ ranges.length)
    (bounded : ∀ range ∈ ranges, range ≤ maxValue) :
    (∃ smallest, IsLeast {range | range ∈ ranges} smallest ∧
      IsLeast (Set.range (setRanges360 maxValue ranges).sector) smallest) ∧
    ∀ s, (setRanges360 maxValue ranges).sector s ≠ maxValue →
      ∃ i, ∃ below : i < ranges.length,
        (setRanges360 maxValue ranges).sector s = ranges[i] ∧ Faces K ranges.length i s := by
  have positive : 0 < ranges.length := by omega
  constructor
  · rcases Set.exists_min_image {range | range ∈ ranges} id (List.finite_toSet ranges)
      ⟨ranges[0], List.getElem_mem positive⟩ with ⟨smallest, smallestMem, least⟩
    have le_sector : ∀ s, smallest ≤ (setRanges360 maxValue ranges).sector s := by
      intro s
      rcases (sector_setRanges360 maxValue ranges s).2.2 with same | ⟨i, below, -, same⟩
      · rw [same]
        exact bounded smallest smallestMem
      · rw [same]
        exact least _ (List.getElem_mem below)
    rcases List.getElem_of_mem smallestMem with ⟨i, below, beam⟩
    rcases exists_covers (K := K) many i with ⟨s, covers⟩
    have sector_le := (sector_setRanges360 maxValue ranges s).2.1 i below covers
    refine ⟨smallest, ⟨smallestMem, least⟩, ⟨s, le_antisymm (beam ▸ sector_le) (le_sector s)⟩, ?_⟩
    rintro _ ⟨other, rfl⟩
    exact le_sector other
  · intro s changed
    rcases (sector_setRanges360 maxValue ranges s).2.2 with same | ⟨i, below, covers, same⟩
    · exact absurd same changed
    · exact ⟨i, below, same, covers.faces positive below⟩

/-- A scan with one obstacle, straight ahead. -/
theorem setRanges360_spec_front :
    let ranges : List ℚ := List.replicate 12 4 ++ [1] ++ List.replicate 11 4
    (∃ smallest, IsLeast {range | range ∈ ranges} smallest ∧
      IsLeast (Set.range (setRanges360 1000 ranges).sector) smallest) ∧
    ∀ s, (setRanges360 1000 ranges).sector s ≠ 1000 →
      ∃ i, ∃ below : i < ranges.length,
        (setRanges360 1000 ranges).sector s = ranges[i] ∧ Faces ℚ ranges.length i s :=
  setRanges360_spec 1000 _ (by decide) (by decide +kernel)

end Bounds

end Ranger8Ranges

end MrsOptimization
