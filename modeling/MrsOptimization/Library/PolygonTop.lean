import MrsOptimization.Library.PolygonCorner

/-!
# The top vertex of a polygon

The highest vertex of a polygon, the one furthest to the right among several, is a
corner of the polygon or of its reverse. Seen from it the rest of the polygon has the
winding number zero, and so has every point next to it outside the corner.
-/

namespace MrsOptimization

open Plane

/-- `v` is lower than `m`, or at the same height further to the left. -/
def Below (m v : Plane) : Prop := v.2 < m.2 ∨ v.2 = m.2 ∧ v.1 < m.1

theorem Below.trans {m v w : Plane} (first : Below m v) (second : Below v w) : Below m w := by
  rcases first with lower | ⟨level, further⟩ <;> rcases second with lower' | ⟨level', further'⟩
  · exact .inl (lower'.trans lower)
  · exact .inl (level'.trans_lt lower)
  · exact .inl (lower'.trans_eq level)
  · exact .inr ⟨level'.trans level, further'.trans further⟩

theorem below_trichotomy (m v : Plane) : Below m v ∨ v = m ∨ Below v m := by
  rcases lt_trichotomy v.2 m.2 with lower | level | higher
  · exact .inl (.inl lower)
  · rcases lt_trichotomy v.1 m.1 with further | same | nearer
    · exact .inl (.inr ⟨level, further⟩)
    · exact .inr (.inl (Prod.ext same level))
    · exact .inr (.inr (.inr ⟨level.symm, nearer⟩))
  · exact .inr (.inr (.inl higher))

theorem Below.le {m v : Plane} (below : Below m v) : v.2 ≤ m.2 := by
  rcases below with lower | ⟨level, -⟩
  · exact lower.le
  · exact level.le

structure Top (path : List Plane) (m : Plane) : Prop where
  mem : m ∈ path
  below : ∀ v ∈ path, v ≠ m → Below m v

theorem Top.le {path : List Plane} {m v : Plane} (top : Top path m) (mem : v ∈ path) :
    v.2 ≤ m.2 := by
  rcases eq_or_ne v m with rfl | other
  · exact le_rfl
  · exact (top.below v mem other).le

theorem exists_top {path : List Plane} (nonempty : path ≠ []) : ∃ m, Top path m := by
  induction path with
  | nil => exact (nonempty rfl).elim
  | cons p rest ih =>
      rcases eq_or_ne rest [] with rfl | more
      · exact ⟨p, by simp, by simp⟩
      rcases ih more with ⟨m, mem, below⟩
      rcases below_trichotomy m p with lower | rfl | higher
      · refine ⟨m, List.mem_cons_of_mem _ mem, fun v vMem other => ?_⟩
        rcases List.mem_cons.mp vMem with rfl | vMem
        · exact lower
        · exact below v vMem other
      · refine ⟨p, List.mem_cons_self, fun v vMem other => ?_⟩
        rcases List.mem_cons.mp vMem with rfl | vMem
        · exact (other rfl).elim
        · exact below v vMem other
      · refine ⟨p, List.mem_cons_self, fun v vMem other => ?_⟩
        rcases List.mem_cons.mp vMem with rfl | vMem
        · exact (other rfl).elim
        · rcases eq_or_ne v m with rfl | other'
          · exact higher
          · exact higher.trans (below v vMem other')

/-- Seen from a point as high as all vertices the winding number is zero. -/
theorem winding_eq_zero_of_le {path : List Plane} {q : Plane} (le : ∀ v ∈ path, v.2 ≤ q.2) :
    winding (edges path) q = 0 :=
  winding_eq_zero_of_below fun _ eMem => ⟨le _ (fst_mem eMem), le _ (snd_mem eMem)⟩

/-- Two points below `m` on one line with it lie on the same side. -/
theorem exists_pos_smul {m a b : Plane} (aBelow : Below m a) (bBelow : Below m b)
    (collinear : area2 a m b = 0) : ∃ t : ℝ, 0 < t ∧ a - m = t • (b - m) := by
  have product : (a.1 - m.1) * (b.2 - m.2) = (a.2 - m.2) * (b.1 - m.1) := by
    simp only [area2, cross, Prod.fst_sub, Prod.snd_sub] at collinear
    linear_combination -collinear
  rcases bBelow with bLower | ⟨bLevel, bFurther⟩
  · have nonzero : b.2 - m.2 ≠ 0 := by
      have negative : b.2 - m.2 < 0 := by linarith
      exact negative.ne
    refine ⟨(a.2 - m.2) / (b.2 - m.2), ?_, ?_⟩
    · rcases aBelow with aLower | ⟨aLevel, aFurther⟩
      · exact div_pos_of_neg_of_neg (by linarith) (by linarith)
      · rw [aLevel, sub_self, zero_mul] at product
        rcases mul_eq_zero.mp product with zero | zero
        · linarith
        · exact (nonzero zero).elim
    · apply Prod.ext
      · simp only [Prod.fst_sub, Prod.smul_fst, smul_eq_mul]
        field_simp
        exact product
      · simp only [Prod.snd_sub, Prod.smul_snd, smul_eq_mul]
        field_simp
  · have aLevel : a.2 = m.2 := by
      rw [bLevel, sub_self, mul_zero] at product
      rcases mul_eq_zero.mp product.symm with zero | zero <;> linarith
    have nonzero : b.1 - m.1 ≠ 0 := by
      have negative : b.1 - m.1 < 0 := by linarith
      exact negative.ne
    refine ⟨(a.1 - m.1) / (b.1 - m.1), ?_, ?_⟩
    · rcases aBelow with aLower | ⟨-, aFurther⟩
      · linarith
      · exact div_pos_of_neg_of_neg (by linarith) (by linarith)
    · apply Prod.ext
      · simp only [Prod.fst_sub, Prod.smul_fst, smul_eq_mul]
        field_simp
      · simp only [Prod.snd_sub, Prod.smul_snd, smul_eq_mul, aLevel, bLevel]
        ring

theorem mem_segment_of_smul {m a b : Plane} {t : ℝ} (positive : 0 < t) (le : t ≤ 1)
    (shape : a - m = t • (b - m)) : a ∈ segment ℝ m b := by
  refine ⟨1 - t, t, by linarith, positive.le, by ring, ?_⟩
  have sum : a = m + t • (b - m) := by rw [← shape, add_sub_cancel]
  rw [sum]
  module

/-- The top vertex is no straight angle. -/
theorem Top.area2_ne_zero {path : List Plane} {a m b : Plane} (simple : SimplePolygon path)
    (top : Top path m) (into : (a, m) ∈ edges path) (out : (m, b) ∈ edges path) (am : a ≠ m)
    (bm : b ≠ m) (ab : a ≠ b) : area2 a m b ≠ 0 := by
  intro collinear
  have aMem := fst_mem into
  have bMem := snd_mem out
  rcases exists_pos_smul (top.below a aMem am) (top.below b bMem bm) collinear with
    ⟨t, positive, shape⟩
  rcases le_total t 1 with small | large
  · have onOut := mem_segment_of_smul positive small shape
    rcases simple.vertex_on_edge aMem out onOut with same | same
    · exact am same
    · exact ab same
  · have shape' : b - m = t⁻¹ • (a - m) := by
      rw [shape, smul_smul, inv_mul_cancel₀ positive.ne', one_smul]
    have onInto := mem_segment_of_smul (inv_pos.mpr positive) (inv_le_one_of_one_le₀ large) shape'
    rw [segment_symm] at onInto
    rcases simple.vertex_on_edge bMem into onInto with same | same
    · exact ab same.symm
    · exact bm same

/-- The polygon turns to the left at its top vertex. -/
def TurnsLeft (path : List Plane) : Prop := ∃ a m b, Top path m ∧ Corner path a m b

theorem turnsLeft_or_reverse {path : List Plane} (simple : SimplePolygon path)
    (long : 3 ≤ path.length) : TurnsLeft path ∨ TurnsLeft path.reverse := by
  have nonempty : path ≠ [] := by
    rintro rfl
    simp at long
  rcases exists_top nonempty with ⟨m, top⟩
  rcases exists_corner long top.mem with ⟨a, b, rest, rotated⟩
  have perm := edges_perm rotated
  have into : (a, m) ∈ edges path := perm.mem_iff.mpr (by simp [edges_corner])
  have out : (m, b) ∈ edges path := perm.mem_iff.mpr (by simp [edges_corner])
  have nodup := rotated.nodup_iff.mp simple.nodup
  simp only [List.nodup_cons, List.mem_cons, not_or] at nodup
  have nonzero := top.area2_ne_zero simple into out nodup.1.1 (Ne.symm nodup.2.1.1) nodup.1.2.1
  rcases nonzero.lt_or_gt with right | left
  · right
    have reversed := edges_reverse_perm path
    refine ⟨b, m, a, ⟨List.mem_reverse.mpr top.mem, ?_⟩, ?_, ?_, ?_⟩
    · exact fun v vMem => top.below v (List.mem_reverse.mp vMem)
    · exact reversed.mem_iff.mpr (List.mem_map.mpr ⟨(m, b), out, rfl⟩)
    · exact reversed.mem_iff.mpr (List.mem_map.mpr ⟨(a, m), into, rfl⟩)
    · rw [area2_rotate, area2_flip]
      exact neg_pos.mpr right
  · exact .inl ⟨a, m, b, top, into, out, left⟩

/-- A point that the top vertex sees outside its corner has winding number zero. -/
theorem winding_eq_zero_of_seen {a m b v : Plane} {rest : List Plane}
    (simple : SimplePolygon (a :: m :: b :: rest)) (top : Top (a :: m :: b :: rest) m)
    (left : 0 < area2 a m b) (outside : area2 a m v < 0 ∨ area2 m b v < 0)
    (seen : ∀ z ∈ segment ℝ m v, z ≠ m → ¬OnEdges (edges (a :: m :: b :: rest)) z) :
    winding (edges (a :: m :: b :: rest)) v = 0 := by
  have corner : Corner (a :: m :: b :: rest) a m b := corner_of_left left
  have off : ¬OnEdges (edges (a :: b :: rest)) m := by
    rintro ⟨e, eMem, onE⟩
    rw [edges_clipped] at eMem
    rcases List.mem_cons.mp eMem with rfl | eMem
    · have zero := area2_eq_zero_of_mem onE
      have base := corner.base_pos
      rw [area2_swap] at base
      simp only at zero
      linarith
    · rcases mem_rest simple.nodup eMem with ⟨eMem, notInto, notOut⟩
      rcases simple.vertex_on_edge top.mem eMem onE with same | same
      · exact notOut (eq_of_fst_eq simple.nodup eMem corner.out same.symm)
      · exact notInto (eq_of_snd_eq simple.nodup eMem corner.into same.symm)
  have zero : winding (edges (a :: b :: rest)) m = 0 := by
    apply winding_eq_zero_of_le
    intro w wMem
    apply top.le
    simp only [List.mem_cons] at wMem ⊢
    tauto
  rcases exists_push (closed_edges _) off (v - m) with ⟨δ, positive, push⟩
  have small : 0 < min δ 1 := lt_min positive one_pos
  have same := (push (min δ 1) (by rw [abs_of_pos small]; exact min_le_left _ _)).2
  have shape : m + min δ 1 • (v - m) = (1 - min δ 1) • m + min δ 1 • v := by
    module
  have total : 1 - min δ 1 + min δ 1 = 1 := by ring
  -- a point next to the top vertex, outside its triangle
  obtain ⟨z, shape'⟩ : ∃ z, z = (1 - min δ 1) • m + min δ 1 • v := ⟨_, rfl⟩
  have between : z ∈ segment ℝ m v :=
    ⟨1 - min δ 1, min δ 1, by linarith [min_le_right δ 1], small.le, total, shape'.symm⟩
  have outside' : area2 a m z < 0 ∨ area2 m b z < 0 := by
    rw [shape', area2_combo a m total, area2_combo m b total, area2_right, area2_left, mul_zero,
      zero_add, zero_add]
    exact outside.imp (mul_neg_of_pos_of_neg small) (mul_neg_of_pos_of_neg small)
  have away : z ≠ m := by
    rintro rfl
    simp at outside'
  have atZ : winding (edges (a :: m :: b :: rest)) z = 0 := by
    rw [winding_clip, shape', ← shape, same, zero, zero_add]
    apply around_eq_zero_of_notInTriangle left
    rw [shape, ← shape']
    rintro ⟨am, mb, -⟩
    rcases outside' with negative | negative
    · exact negative.not_ge am
    · exact negative.not_ge mb
  rw [← atZ]
  refine (winding_eq_of_segment (closed_edges _) fun w mem => ?_).symm
  refine seen w ((convex_segment m v).segment_subset between (right_mem_segment ℝ m v) mem) ?_
  rintro rfl
  rw [segment_symm] at between
  exact away (eq_of_mem_segments between mem)

end MrsOptimization
