import MrsOptimization.Control.RangerSectors

/-!
# Mirrored scans

A scan read the other way round sees the same obstacles on the other side. Both bounds of
a sector are rounded down and then excluded, so its first and its last beam change places
only where the bounds are beams themselves: the sectors of all mirrored scans are mirrored
exactly if 24 divides the number of ranges.
-/

namespace MrsOptimization

def Sector.mirror : Sector → Sector
  | .rear => .rear
  | .rearRight => .rearLeft
  | .right => .left
  | .frontRight => .frontLeft
  | .front => .front
  | .frontLeft => .frontRight
  | .left => .right
  | .rearLeft => .rearRight

theorem Sector.mirror_ne_rear {s : Sector} (front : s ≠ .rear) : s.mirror ≠ .rear := by
  cases s <;> simp_all [Sector.mirror]

namespace Ranger8Ranges

section Mirror

variable {K : Type}

/-- The beam at the opposite angle. -/
def opposite (samples i : ℕ) : ℕ := (samples - i) % samples

theorem opposite_lt {samples i : ℕ} (below : i < samples) : opposite samples i < samples :=
  Nat.mod_lt _ (Nat.zero_lt_of_lt below)

theorem opposite_opposite {samples i : ℕ} (below : i < samples) :
    opposite samples (opposite samples i) = i := by
  rcases Nat.eq_zero_or_pos i with rfl | positive
  · simp [opposite]
  · rw [opposite, opposite, Nat.mod_eq_of_lt (by omega : samples - i < samples),
      Nat.sub_sub_self below.le, Nat.mod_eq_of_lt below]

/-- The scan with the range of the opposite beam at each beam. -/
def mirrored (ranges : List K) : List K :=
  List.ofFn fun i : Fin ranges.length =>
    ranges.get ⟨opposite ranges.length i, opposite_lt i.isLt⟩

@[simp] theorem length_mirrored (ranges : List K) : (mirrored ranges).length = ranges.length := by
  simp [mirrored]

theorem getElem?_mirrored (ranges : List K) {i : ℕ} (below : i < ranges.length) :
    (mirrored ranges)[i]? = ranges[opposite ranges.length i]? := by
  rw [List.getElem?_eq_getElem (by simpa using below),
    List.getElem?_eq_getElem (opposite_lt below)]
  simp [mirrored]

end Mirror

variable {K : Type} [Field K] [LinearOrder K] [FloorRing K]

/-- The ranges of the beams of a sector. -/
def seen (ranges : List K) (s : Sector) : Set K :=
  {range | ∃ i, Covers K ranges.length i s ∧ ranges[i]? = some range}

theorem sector_isLeast (maxValue : K) (ranges : List K) (s : Sector) :
    IsLeast (insert maxValue (seen ranges s)) ((setRanges360 maxValue ranges).sector s) := by
  rcases sector_setRanges360 maxValue ranges s with ⟨leInit, leItem, attained⟩
  constructor
  · rcases attained with same | ⟨i, below, covers, same⟩
    · exact .inl same
    · exact .inr ⟨i, covers, by rw [List.getElem?_eq_getElem below, same]⟩
  · rintro range (rfl | ⟨i, covers, here⟩)
    · exact leInit
    · rcases List.getElem?_eq_some_iff.mp here with ⟨below, rfl⟩
      exact leItem i below covers

/-- The sectors of the mirrored scan are those of the scan with left and right exchanged. -/
def MirrorsSectors (maxValue : K) (ranges : List K) : Prop :=
  ∀ s, (setRanges360 maxValue (mirrored ranges)).sector s =
    (setRanges360 maxValue ranges).sector s.mirror

section Bounds

variable [IsStrictOrderedRing K] {samples : ℕ}

/-- Where all bounds of sectors are beams, opposite beams lie in opposite sectors. -/
theorem covers_opposite_iff (whole : 24 ∣ samples) {i : ℕ} (below : i < samples) (s : Sector) :
    Covers K samples (opposite samples i) s ↔ Covers K samples i s.mirror := by
  have positive : 0 < samples := by omega
  rcases whole with ⟨width, rfl⟩
  by_cases rear : s = .rear
  · subst rear
    rw [Sector.mirror, covers_rear_iff positive, covers_rear_iff positive]
    rcases Nat.eq_zero_or_pos i with rfl | later
    · simp [opposite]
    · rw [opposite, Nat.mod_eq_of_lt (by omega)]
      push_cast [below.le]
      omega
  · rw [covers_iff positive rear, covers_iff positive (Sector.mirror_ne_rear rear)]
    rcases Nat.eq_zero_or_pos i with rfl | later
    · cases s <;> simp_all [opposite, Sector.index, Sector.mirror] <;> omega
    · rw [opposite, Nat.mod_eq_of_lt (by omega)]
      push_cast [below.le]
      cases s with
      | rear => exact absurd rfl rear
      | _ =>
          simp only [Sector.index, Sector.mirror]
          omega

theorem mirrorsSectors_of_dvd (maxValue : K) {ranges : List K} (whole : 24 ∣ ranges.length) :
    MirrorsSectors maxValue ranges := by
  intro s
  have same : seen (mirrored ranges) s = seen ranges s.mirror := by
    ext range
    constructor
    · rintro ⟨i, covers, here⟩
      have below := (List.getElem?_eq_some_iff.mp here).1
      rw [length_mirrored] at below covers
      rw [getElem?_mirrored ranges below] at here
      refine ⟨opposite ranges.length i, ?_, here⟩
      rwa [← covers_opposite_iff whole (opposite_lt below), opposite_opposite below]
    · rintro ⟨i, covers, here⟩
      have below := (List.getElem?_eq_some_iff.mp here).1
      refine ⟨opposite ranges.length i, ?_, ?_⟩
      · rwa [length_mirrored, covers_opposite_iff whole below]
      · rw [getElem?_mirrored ranges (opposite_lt below), opposite_opposite below, here]
  have least := sector_isLeast maxValue (mirrored ranges) s
  rw [same] at least
  exact least.unique (sector_isLeast maxValue ranges s.mirror)

/-- The first beam of the right rear sector, whose opposite is in no rear left sector. -/
theorem exists_lost (many : 24 ≤ samples) (broken : ¬24 ∣ samples) :
    ∃ i < samples, 0 < i ∧ Covers K samples i .rearRight ∧
      ¬Covers K samples (samples - i) .rearLeft := by
  have positive : 0 < samples := by omega
  refine ⟨samples / 24 + 1, by omega, by omega, ?_, ?_⟩
  · rw [covers_iff positive (by decide)]
    simp only [Sector.index]
    omega
  · rw [covers_iff positive (by decide)]
    simp only [Sector.index]
    omega

/-- A scan in which only one beam meets an obstacle. -/
def lonely (maxValue : K) (samples i : ℕ) : List K :=
  (List.replicate samples maxValue).set i (maxValue - 1)

theorem not_mirrorsSectors_lonely (maxValue : K) {i : ℕ} (below : i < samples) (later : 0 < i)
    (covers : Covers K samples i .rearRight)
    (lost : ¬Covers K samples (samples - i) .rearLeft) :
    ¬MirrorsSectors maxValue (lonely maxValue samples i) := by
  intro mirrors
  have length : (lonely maxValue samples i).length = samples := by simp [lonely]
  have near : maxValue - 1 < maxValue := sub_one_lt maxValue
  have right : (setRanges360 maxValue (lonely maxValue samples i)).sector .rearRight ≤
      maxValue - 1 := by
    apply (sector_isLeast maxValue (lonely maxValue samples i) .rearRight).2
    refine .inr ⟨i, by rwa [length], ?_⟩
    simp [lonely, below]
  have left : (setRanges360 maxValue (mirrored (lonely maxValue samples i))).sector .rearLeft =
      maxValue := by
    rcases (sector_isLeast maxValue (mirrored (lonely maxValue samples i)) .rearLeft).1 with
      same | ⟨j, coversJ, here⟩
    · exact same
    · have belowJ := (List.getElem?_eq_some_iff.mp here).1
      rw [length_mirrored, length] at belowJ coversJ
      rw [getElem?_mirrored _ (by rwa [length]), length] at here
      have apart : opposite samples j ≠ i := by
        rintro rfl
        have self := opposite_opposite belowJ
        rw [opposite, Nat.mod_eq_of_lt (by omega)] at self
        rw [self] at lost
        exact lost coversJ
      rw [lonely, List.getElem?_set_ne apart.symm, List.getElem?_replicate_of_lt
        (opposite_lt belowJ)] at here
      exact (Option.some.inj here).symm
  have same := mirrors .rearLeft
  rw [left, Sector.mirror] at same
  rw [← same] at right
  exact absurd right (not_le.mpr near)

/-- The sectors of every mirrored scan of this length are mirrored if and only if the bounds of
all sectors are beams. -/
theorem mirrorsSectors_iff (maxValue : K) (many : 24 ≤ samples) :
    (∀ ranges : List K, ranges.length = samples → MirrorsSectors maxValue ranges) ↔
      24 ∣ samples := by
  constructor
  · intro mirrors
    by_contra broken
    rcases exists_lost (K := K) many broken with ⟨i, below, later, covers, lost⟩
    refine not_mirrorsSectors_lonely maxValue below later covers lost (mirrors _ ?_)
    simp [lonely]
  · rintro whole ranges rfl
    exact mirrorsSectors_of_dvd maxValue whole

/-- A scan of one range for each degree, all of them different. -/
theorem mirrorsSectors_iff_degrees :
    MirrorsSectors 1000 ((List.range 360).map fun i : ℕ => (i : ℚ)) := by
  apply (mirrorsSectors_iff 1000 (by decide : 24 ≤ 360)).mpr (by decide)
  rw [List.length_map, List.length_range]

/-- The laser with 45 samples: an obstacle behind on the right, and its mirror image. -/
theorem not_mirrorsSectors_laser :
    ¬∀ samples : ℕ, 24 ≤ samples → ∀ ranges : List ℚ, ranges.length = samples →
      MirrorsSectors 1000 ranges := by
  intro mirrors
  have same := mirrors 45 (by decide) ((List.replicate 45 1000).set 2 1) (by decide) .rearLeft
  revert same
  decide +kernel

end Bounds

end Ranger8Ranges

end MrsOptimization
