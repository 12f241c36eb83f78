import Mathlib.Analysis.Convex.Between
import Mathlib.Analysis.Convex.Segment
import Mathlib.Analysis.Convex.Topology
import Mathlib.Data.Real.Basic
import Mathlib.Tactic.Linarith
import Mathlib.Tactic.LinearCombination
import Mathlib.Topology.Order.IntermediateValue

/-!
# Crossings in the plane

How often the edge from `u` to `v`, seen from the origin, crosses the positive
horizontal axis, with a sign for its direction. Around a triangle the crossings sum
up to zero when the origin is outside, and to one when it is inside and the triangle
turns to the left. When the origin moves without touching the edge, the crossings of
the edge change only by what its two ends contribute.
-/

namespace MrsOptimization

abbrev Plane := ℝ × ℝ

namespace Plane

def cross (u v : Plane) : ℝ := u.1 * v.2 - u.2 * v.1

/-- Twice the signed area of the triangle `p q z`, positive for a turn to the left. -/
def area2 (p q z : Plane) : ℝ := cross (q - p) (z - p)

theorem cross_swap (u v : Plane) : cross v u = -cross u v := by
  simp only [cross]
  ring

theorem area2_rotate (p q z : Plane) : area2 q z p = area2 p q z := by
  simp only [area2, cross, Prod.fst_sub, Prod.snd_sub]
  ring

theorem area2_swap (p q z : Plane) : area2 q p z = -area2 p q z := by
  simp only [area2, cross, Prod.fst_sub, Prod.snd_sub]
  ring

theorem area2_flip (p q z : Plane) : area2 p z q = -area2 p q z := by
  simp only [area2, cross, Prod.fst_sub, Prod.snd_sub]
  ring

@[simp] theorem area2_left (p q : Plane) : area2 p q p = 0 := by
  simp [area2, cross]

@[simp] theorem area2_right (p q : Plane) : area2 p q q = 0 := by
  simp only [area2, cross]
  ring

/-- A point splits a triangle into three. -/
theorem area2_split (p q r z : Plane) :
    area2 p q z + area2 q r z + area2 r p z = area2 p q r := by
  simp only [area2, cross, Prod.fst_sub, Prod.snd_sub]
  ring

theorem area2_eq_cross (p q z : Plane) : area2 p q z = cross (p - z) (q - z) := by
  simp only [area2, cross, Prod.fst_sub, Prod.snd_sub]
  ring

/-- Along a segment the area with a fixed base is affine. -/
theorem area2_combo (p q : Plane) {z z' : Plane} {s t : ℝ} (total : s + t = 1) :
    area2 p q (s • z + t • z') = s * area2 p q z + t * area2 p q z' := by
  obtain rfl : s = 1 - t := by linarith
  simp only [area2, cross, Prod.fst_sub, Prod.snd_sub, Prod.fst_add, Prod.snd_add,
    Prod.smul_fst, Prod.smul_snd, smul_eq_mul]
  ring

/-- The signed crossing of the positive horizontal axis by the edge from `u` to `v`. -/
noncomputable def crossing (u v : Plane) : ℤ :=
  if u.2 ≤ 0 ∧ 0 < v.2 then if 0 < cross u v then 1 else 0
  else if v.2 ≤ 0 ∧ 0 < u.2 then if cross u v < 0 then -1 else 0
  else 0

theorem crossing_up {u v : Plane} (lower : u.2 ≤ 0) (upper : 0 < v.2) :
    crossing u v = if 0 < cross u v then 1 else 0 := by
  simp [crossing, lower, upper]

theorem crossing_down {u v : Plane} (upper : 0 < u.2) (lower : v.2 ≤ 0) :
    crossing u v = if cross u v < 0 then -1 else 0 := by
  simp [crossing, lower, upper]

theorem crossing_lower {u v : Plane} (lower : u.2 ≤ 0) (lower' : v.2 ≤ 0) : crossing u v = 0 := by
  simp [crossing, lower.not_gt, lower'.not_gt]

theorem crossing_upper {u v : Plane} (upper : 0 < u.2) (upper' : 0 < v.2) : crossing u v = 0 := by
  simp [crossing, upper.not_ge, upper'.not_ge]

theorem crossing_swap (u v : Plane) : crossing v u = -crossing u v := by
  rcases le_or_gt u.2 0 with uLow | uUp <;> rcases le_or_gt v.2 0 with vLow | vUp
  · simp [crossing_lower, uLow, vLow]
  · simp [crossing_up uLow vUp, crossing_down vUp uLow, cross_swap u v]
    split <;> rfl
  · simp [crossing_up vLow uUp, crossing_down uUp vLow, cross_swap u v]
    split <;> rfl
  · simp [crossing_upper, uUp, vUp]

/-- The crossings around the triangle `u v w`. -/
noncomputable def around (u v w : Plane) : ℤ := crossing u v + crossing v w + crossing w u

theorem around_rotate (u v w : Plane) : around v w u = around u v w := by
  simp only [around]
  ring

theorem cross_relation (u v w : Plane) :
    cross v w * u.2 + cross w u * v.2 + cross u v * w.2 = 0 := by
  simp only [cross]
  ring

/-- One vertex above the axis. -/
theorem around_of_one_upper {u v w : Plane} (upper : 0 < u.2) (lower : v.2 ≤ 0)
    (lower' : w.2 ≤ 0) :
    around u v w = (if cross u v < 0 then -1 else 0) + (if 0 < cross w u then 1 else 0) := by
  simp only [around, crossing_down upper lower, crossing_lower lower lower',
    crossing_up lower' upper]
  ring

/-- Two vertices above the axis. -/
theorem around_of_two_upper {u v w : Plane} (upper : 0 < u.2) (upper' : 0 < v.2)
    (lower : w.2 ≤ 0) :
    around u v w = (if cross v w < 0 then -1 else 0) + (if 0 < cross w u then 1 else 0) := by
  simp only [around, crossing_upper upper upper', crossing_down upper' lower,
    crossing_up lower upper]
  ring

/-- The origin lies in the closed triangle `u v w`, which turns to the left. -/
def Surrounded (u v w : Plane) : Prop :=
  0 ≤ cross u v ∧ 0 ≤ cross v w ∧ 0 ≤ cross w u ∧ 0 < cross u v + cross v w + cross w u

theorem Surrounded.rotate {u v w : Plane} (surrounded : Surrounded u v w) :
    Surrounded v w u := by
  rcases surrounded with ⟨uv, vw, wu, total⟩
  exact ⟨vw, wu, uv, by linarith⟩

theorem Surrounded.combination {u v w : Plane} (surrounded : Surrounded u v w) :
    ∃ a b c : ℝ, 0 ≤ a ∧ 0 ≤ b ∧ 0 ≤ c ∧ a + b + c = 1 ∧ a • u + b • v + c • w = 0 := by
  rcases surrounded with ⟨uv, vw, wu, total⟩
  have nonzero := total.ne'
  refine ⟨cross v w / (cross u v + cross v w + cross w u),
    cross w u / (cross u v + cross v w + cross w u),
    cross u v / (cross u v + cross v w + cross w u),
    div_nonneg vw total.le, div_nonneg wu total.le, div_nonneg uv total.le, ?_, ?_⟩
  · field_simp
    ring
  · apply Prod.ext
    · simp only [Prod.fst_add, Prod.smul_fst, smul_eq_mul, Prod.fst_zero]
      field_simp
      simp only [cross]
      ring
    · simp only [Prod.snd_add, Prod.smul_snd, smul_eq_mul, Prod.snd_zero]
      field_simp
      simp only [cross]
      ring

/-- What the crossings around a triangle say about the origin. -/
def Located (u v w : Plane) : Prop :=
  (around u v w = 0 ∨ Surrounded u v w ∨ Surrounded w v u) ∧
    (0 < cross u v → 0 < cross v w → 0 < cross w u → around u v w = 1)

theorem Located.rotate {u v w : Plane} (located : Located u v w) : Located v w u := by
  rw [Located, around_rotate]
  refine ⟨?_, fun vw wu uv => located.2 uv vw wu⟩
  rcases located.1 with zero | left | right
  · exact .inl zero
  · exact .inr (.inl left.rotate)
  · exact .inr (.inr right.rotate.rotate)

theorem located_of_one_upper {u v w : Plane} (upper : 0 < u.2) (lower : v.2 ≤ 0)
    (lower' : w.2 ≤ 0) : Located u v w := by
  have relation := cross_relation u v w
  rw [Located, around_of_one_upper upper lower lower']
  refine ⟨?_, fun uv vw wu => by simp [wu, uv.le.not_gt]⟩
  rcases lt_or_ge (cross u v) 0 with uv | uv <;> rcases le_or_gt (cross w u) 0 with wu | wu
  · have vw : cross v w ≤ 0 := by
      by_contra positive
      nlinarith [mul_nonneg_of_nonpos_of_nonpos wu lower,
        mul_nonneg_of_nonpos_of_nonpos uv.le lower', mul_pos (not_le.mp positive) upper]
    refine .inr (.inr ⟨?_, ?_, ?_, ?_⟩) <;>
      simp only [cross_swap v w, cross_swap u v, cross_swap w u] <;> linarith
  · left
    simp [uv, wu]
  · left
    simp [uv.not_gt, wu.not_gt]
  · have vw : 0 ≤ cross v w := by
      by_contra negative
      nlinarith [mul_nonpos_of_nonneg_of_nonpos wu.le lower,
        mul_nonpos_of_nonneg_of_nonpos uv lower', mul_neg_of_neg_of_pos (not_le.mp negative) upper]
    exact .inr (.inl ⟨uv, vw, wu.le, by linarith⟩)

theorem located_of_two_upper {u v w : Plane} (upper : 0 < u.2) (upper' : 0 < v.2)
    (lower : w.2 ≤ 0) : Located u v w := by
  have relation := cross_relation u v w
  rw [Located, around_of_two_upper upper upper' lower]
  refine ⟨?_, fun uv vw wu => by simp [wu, vw.le.not_gt]⟩
  rcases lt_or_ge (cross v w) 0 with vw | vw <;> rcases le_or_gt (cross w u) 0 with wu | wu
  · have uv : cross u v ≤ 0 := by
      by_contra positive
      nlinarith [mul_nonpos_of_nonneg_of_nonpos (not_le.mp positive).le lower,
        mul_neg_of_neg_of_pos vw upper, mul_nonpos_of_nonpos_of_nonneg wu upper'.le]
    refine .inr (.inr ⟨?_, ?_, ?_, ?_⟩) <;>
      simp only [cross_swap v w, cross_swap u v, cross_swap w u] <;> linarith
  · left
    simp [vw, wu]
  · left
    simp [vw.not_gt, wu.not_gt]
  · have uv : 0 ≤ cross u v := by
      by_contra negative
      nlinarith [mul_nonneg_of_nonpos_of_nonpos (not_le.mp negative).le lower,
        mul_nonneg vw upper.le, mul_pos wu upper']
    exact .inr (.inl ⟨uv, vw, wu.le, by linarith⟩)

theorem located (u v w : Plane) : Located u v w := by
  rcases le_or_gt u.2 0 with uLow | uUp <;> rcases le_or_gt v.2 0 with vLow | vUp <;>
    rcases le_or_gt w.2 0 with wLow | wUp
  · have zero : around u v w = 0 := by
      simp [around, crossing_lower, uLow, vLow, wLow]
    refine ⟨.inl zero, fun uv vw wu => ?_⟩
    -- all three vertices would lie on the axis
    have relation := cross_relation u v w
    have uNonpos := mul_nonpos_of_nonneg_of_nonpos vw.le uLow
    have vNonpos := mul_nonpos_of_nonneg_of_nonpos wu.le vLow
    have wNonpos := mul_nonpos_of_nonneg_of_nonpos uv.le wLow
    have uZero : u.2 = 0 := by
      have product : cross v w * u.2 = 0 := by linarith
      exact (mul_eq_zero.mp product).resolve_left vw.ne'
    have vZero : v.2 = 0 := by
      have product : cross w u * v.2 = 0 := by linarith
      exact (mul_eq_zero.mp product).resolve_left wu.ne'
    simp [cross, uZero, vZero] at uv
  · exact (located_of_one_upper wUp uLow vLow).rotate
  · exact (located_of_one_upper vUp wLow uLow).rotate.rotate
  · exact (located_of_two_upper vUp wUp uLow).rotate.rotate
  · exact located_of_one_upper uUp vLow wLow
  · exact (located_of_two_upper wUp uUp vLow).rotate
  · exact located_of_two_upper uUp vUp wLow
  · have zero : around u v w = 0 := by
      simp [around, crossing_upper, uUp, vUp, wUp]
    refine ⟨.inl zero, fun uv vw wu => ?_⟩
    have relation := cross_relation u v w
    nlinarith [mul_pos vw uUp, mul_pos wu vUp, mul_pos uv wUp]

theorem around_eq_one {u v w : Plane} (uv : 0 < cross u v) (vw : 0 < cross v w)
    (wu : 0 < cross w u) : around u v w = 1 :=
  (located u v w).2 uv vw wu

theorem around_eq_zero {u v w : Plane}
    (outside : ∀ a b c : ℝ, 0 ≤ a → 0 ≤ b → 0 ≤ c → a + b + c = 1 →
      a • u + b • v + c • w ≠ 0) : around u v w = 0 := by
  rcases (located u v w).1 with zero | left | right
  · exact zero
  · rcases left.combination with ⟨a, b, c, aNonneg, bNonneg, cNonneg, total, combination⟩
    exact (outside a b c aNonneg bNonneg cNonneg total combination).elim
  · rcases right.combination with ⟨c, b, a, cNonneg, bNonneg, aNonneg, total, combination⟩
    refine (outside a b c aNonneg bNonneg cNonneg (by linarith) ?_).elim
    rw [← combination]
    abel

/-- The crossings of an edge seen from two points whose segment does not meet the edge
differ by what the two ends contribute. -/
theorem crossing_sub_crossing {a b q q' : Plane}
    (disjoint : ∀ z ∈ segment ℝ a b, z ∉ segment ℝ q q') :
    crossing (a - q) (b - q) - crossing (a - q') (b - q') =
      crossing (a - q) (a - q') - crossing (b - q) (b - q') := by
  have first : around (a - q) (b - q) (b - q') = 0 := by
    apply around_eq_zero
    intro x y z xNonneg yNonneg zNonneg total combination
    apply disjoint (x • a + (y + z) • b) ⟨x, y + z, xNonneg, by linarith, by linarith, rfl⟩
    refine ⟨x + y, z, by linarith, zNonneg, total, ?_⟩
    rw [← sub_eq_zero, ← neg_eq_zero, ← combination]
    module
  have second : around (a - q) (b - q') (a - q') = 0 := by
    apply around_eq_zero
    intro x y z xNonneg yNonneg zNonneg total combination
    apply disjoint ((x + z) • a + y • b) ⟨x + z, y, by linarith, yNonneg, by linarith, rfl⟩
    refine ⟨x, y + z, xNonneg, by linarith, by linarith, ?_⟩
    rw [← sub_eq_zero, ← neg_eq_zero, ← combination]
    module
  simp only [around] at first second
  have reversed := crossing_swap (a - q) (b - q')
  have base := crossing_swap (a - q') (b - q')
  have side := crossing_swap (a - q) (a - q')
  omega

/-- The closed triangle `a m b`, when it turns to the left. -/
def InTriangle (a m b z : Plane) : Prop :=
  0 ≤ area2 a m z ∧ 0 ≤ area2 m b z ∧ 0 ≤ area2 b a z

theorem around_eq_zero_of_notInTriangle {a m b z : Plane} (left : 0 < area2 a m b)
    (outside : ¬InTriangle a m b z) : around (a - z) (m - z) (b - z) = 0 := by
  have total := area2_split a m b z
  simp only [InTriangle, area2_eq_cross _ _ z] at outside total
  rcases (located (a - z) (m - z) (b - z)).1 with zero | turned | ⟨-, -, -, reversed⟩
  · exact zero
  · exact (outside ⟨turned.1, turned.2.1, turned.2.2.1⟩).elim
  · simp only [cross_swap (m - z) (b - z), cross_swap (a - z) (m - z),
      cross_swap (b - z) (a - z)] at reversed
    linarith

theorem around_eq_one_of_inside {a m b z : Plane} (am : 0 < area2 a m z) (mb : 0 < area2 m b z)
    (ba : 0 < area2 b a z) : around (a - z) (m - z) (b - z) = 1 := by
  rw [area2_eq_cross] at am mb ba
  exact around_eq_one am mb ba

/-- A point of the triangle on the line of a side is on the side. -/
theorem mem_segment_of_area2_eq_zero {p q r z : Plane} (left : 0 < area2 p q r)
    (onLine : area2 p q z = 0) (qr : 0 ≤ area2 q r z) (rp : 0 ≤ area2 r p z) :
    z ∈ segment ℝ p q := by
  have total := area2_split p q r z
  rw [onLine, zero_add] at total
  have nonzero := left.ne'
  refine ⟨area2 q r z / area2 p q r, area2 r p z / area2 p q r, div_nonneg qr left.le,
    div_nonneg rp left.le, by rw [← add_div, total, div_self nonzero], ?_⟩
  apply Prod.ext
  · simp only [Prod.fst_add, Prod.smul_fst, smul_eq_mul]
    field_simp
    simp only [area2, cross, Prod.fst_sub, Prod.snd_sub] at onLine ⊢
    linear_combination -r.1 * onLine
  · simp only [Prod.snd_add, Prod.smul_snd, smul_eq_mul]
    field_simp
    simp only [area2, cross, Prod.fst_sub, Prod.snd_sub] at onLine ⊢
    linear_combination -r.2 * onLine

/-- Two points that lie between each other and `a` are the same. -/
theorem eq_of_mem_segments {a b z : Plane} (between : z ∈ segment ℝ a b)
    (between' : b ∈ segment ℝ z a) : z = b := by
  rw [segment_symm] at between'
  exact (wbtw_swap_right_iff ℝ a).mp
    ⟨mem_segment_iff_wbtw.mp between, mem_segment_iff_wbtw.mp between'⟩

/-- The area with a fixed base is not below both of its values at the ends of a segment. -/
theorem exists_area2_ge {p q x y z : Plane} (between : z ∈ segment ℝ x y) :
    area2 p q z ≤ area2 p q x ∨ area2 p q z ≤ area2 p q y := by
  rcases between with ⟨s, t, sNonneg, tNonneg, total, rfl⟩
  rw [area2_combo p q total]
  obtain rfl : s = 1 - t := by linarith
  rcases le_total (area2 p q x) (area2 p q y) with below | above
  · right
    linarith [mul_le_mul_of_nonneg_left below sNonneg]
  · left
    linarith [mul_le_mul_of_nonneg_left above tNonneg]

theorem le_area2_of_mem_segment {p q x y z : Plane} {c : ℝ} (between : z ∈ segment ℝ x y)
    (left : c ≤ area2 p q x) (right : c ≤ area2 p q y) : c ≤ area2 p q z := by
  rcases between with ⟨s, t, sNonneg, tNonneg, total, rfl⟩
  rw [area2_combo p q total]
  calc c = s * c + t * c := by rw [← add_mul, total, one_mul]
    _ ≤ s * area2 p q x + t * area2 p q y :=
      add_le_add (mul_le_mul_of_nonneg_left left sNonneg)
        (mul_le_mul_of_nonneg_left right tNonneg)

theorem area2_eq_zero_of_mem {p q z : Plane} (mem : z ∈ segment ℝ p q) : area2 p q z = 0 := by
  rcases mem with ⟨s, t, -, -, total, rfl⟩
  rw [area2_combo p q total, area2_left, area2_right, mul_zero, mul_zero, add_zero]

/-- A point above a base line, on a segment that ends on the line, has its start above. -/
theorem area2_nonneg_of_mem {p q x y z : Plane} (between : z ∈ segment ℝ x y) (zy : z ≠ y)
    (onLine : area2 p q y = 0) (nonneg : 0 ≤ area2 p q z) : 0 ≤ area2 p q x := by
  rcases between with ⟨s, t, sNonneg, -, total, rfl⟩
  rw [area2_combo p q total, onLine, mul_zero, add_zero] at nonneg
  rcases sNonneg.eq_or_lt with zero | positive
  · obtain rfl : t = 1 := by linarith
    simp [← zero] at zy
  · exact nonneg_of_mul_nonneg_right nonneg positive

/-- A segment that leaves the corner between two half planes meets one of its sides. -/
theorem exists_exit {p q r s x y : Plane} (inside : 0 ≤ area2 p q x ∧ 0 ≤ area2 r s x)
    (outside : area2 p q y < 0 ∨ area2 r s y < 0) :
    ∃ w ∈ segment ℝ x y,
      area2 p q w = 0 ∧ 0 ≤ area2 r s w ∨ area2 r s w = 0 ∧ 0 ≤ area2 p q w := by
  let depth : ℝ → ℝ := fun t =>
    min ((1 - t) * area2 p q x + t * area2 p q y) ((1 - t) * area2 r s x + t * area2 r s y)
  have continuous : Continuous depth := by
    simp only [depth]
    fun_prop
  have start : 0 ≤ depth 0 := by
    simpa [depth] using inside
  have finish : depth 1 ≤ 0 := by
    simp only [depth, sub_self, zero_mul, one_mul, zero_add, min_le_iff]
    exact outside.imp le_of_lt le_of_lt
  rcases intermediate_value_Icc' zero_le_one continuous.continuousOn ⟨finish, start⟩ with
    ⟨t, ⟨tNonneg, tLe⟩, zero⟩
  refine ⟨(1 - t) • x + t • y, ⟨1 - t, t, by linarith, tNonneg, by ring, rfl⟩, ?_⟩
  rw [area2_combo p q (by ring), area2_combo r s (by ring)]
  simp only [depth] at zero
  rcases min_choice ((1 - t) * area2 p q x + t * area2 p q y)
      ((1 - t) * area2 r s x + t * area2 r s y) with least | least
  · rw [least] at zero
    exact .inl ⟨zero, zero ▸ min_eq_left_iff.mp least⟩
  · rw [least] at zero
    exact .inr ⟨zero, zero ▸ min_eq_right_iff.mp least⟩

end Plane

end MrsOptimization
