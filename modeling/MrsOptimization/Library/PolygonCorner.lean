import MrsOptimization.Library.PolygonSplit
import Mathlib.Tactic.FieldSimp

/-!
# Corners and ears of a polygon

A corner is a vertex where a polygon turns to the left, and an ear a corner whose closed
triangle holds no other vertex. No other edge enters the triangle of an ear, so the
winding number is the same all over it and one less on the other side of its two edges.
-/

namespace MrsOptimization

open Plane

/-- The polygon turns to the left from `a` over `m` to `b`. -/
structure Corner (path : List Plane) (a m b : Plane) : Prop where
  into : (a, m) ∈ edges path
  out : (m, b) ∈ edges path
  left : 0 < area2 a m b

/-- A corner whose triangle holds no other vertex. -/
structure Ear (path : List Plane) (a m b : Plane) : Prop extends Corner path a m b where
  empty : ∀ v ∈ path, v ≠ a → v ≠ m → v ≠ b → ¬InTriangle a m b v

section Entry

variable {path : List Plane} {a m b : Plane} {e : Edge}

theorem Corner.base_pos (corner : Corner path a m b) : 0 < area2 b a m := by
  rw [← area2_rotate]
  exact corner.left

/-- Another edge leaves the triangle of a corner only through an end of its base. -/
theorem Corner.exit (simple : SimplePolygon path) (corner : Corner path a m b)
    (eMem : e ∈ edges path) (notInto : e ≠ (a, m)) (notOut : e ≠ (m, b)) {z z' : Plane}
    (onE : z ∈ segment ℝ e.1 e.2) (onE' : z' ∈ segment ℝ e.1 e.2)
    (inside : 0 ≤ area2 a m z ∧ 0 ≤ area2 m b z) (base : 0 ≤ area2 b a z)
    (base' : 0 ≤ area2 b a z') (outside : area2 a m z' < 0 ∨ area2 m b z' < 0) :
    e.1 = b ∧ b ∈ segment ℝ z z' ∨ e.2 = a ∧ a ∈ segment ℝ z z' := by
  rcases exists_exit inside outside with ⟨w, between, side⟩
  have onEdge := (convex_segment e.1 e.2).segment_subset onE onE' between
  have wBase := le_area2_of_mem_segment between base base'
  rcases side with ⟨am, mb⟩ | ⟨mb, am⟩
  · have onInto := mem_segment_of_area2_eq_zero corner.left am mb wBase
    rcases simple.meet e eMem (a, m) corner.into notInto w onEdge onInto with
      ⟨atE, atA⟩ | ⟨atE, atM⟩
    · right
      obtain rfl : w = a := atA
      exact ⟨atE.symm, between⟩
    · exact (notOut (eq_of_fst_eq simple.nodup eMem corner.out (atE.symm.trans atM))).elim
  · have turned : 0 < area2 m b a := by
      rw [area2_rotate]
      exact corner.left
    have onOut := mem_segment_of_area2_eq_zero turned mb wBase am
    rcases simple.meet e eMem (m, b) corner.out notOut w onEdge onOut with
      ⟨atE, atM⟩ | ⟨atE, atB⟩
    · exact (notInto (eq_of_snd_eq simple.nodup eMem corner.into (atE.symm.trans atM))).elim
    · left
      obtain rfl : w = b := atB
      exact ⟨atE.symm, between⟩

/-- If no other vertex lies higher than `γ` above the base, no other edge does. -/
theorem Corner.area2_le (simple : SimplePolygon path) (corner : Corner path a m b) {γ : ℝ}
    (nonneg : 0 ≤ γ)
    (clear : ∀ v ∈ path, v ≠ m → 0 ≤ area2 a m v → 0 ≤ area2 m b v → area2 b a v ≤ γ)
    (eMem : e ∈ edges path) (notInto : e ≠ (a, m)) (notOut : e ≠ (m, b)) {z : Plane}
    (onE : z ∈ segment ℝ e.1 e.2) (inside : 0 ≤ area2 a m z ∧ 0 ≤ area2 m b z) :
    area2 b a z ≤ γ := by
  by_contra high
  rw [not_le] at high
  -- towards the higher end of the edge
  obtain ⟨v, vMem, vOn, vm, above⟩ : ∃ v ∈ path, v ∈ segment ℝ e.1 e.2 ∧ v ≠ m ∧
      area2 b a z ≤ area2 b a v := by
    rcases exists_area2_ge onE with above | above
    · refine ⟨e.1, fst_mem eMem, left_mem_segment ℝ _ _, fun same => ?_, above⟩
      exact notOut (eq_of_fst_eq simple.nodup eMem corner.out same)
    · refine ⟨e.2, snd_mem eMem, right_mem_segment ℝ _ _, fun same => ?_, above⟩
      exact notInto (eq_of_snd_eq simple.nodup eMem corner.into same)
  have outside : area2 a m v < 0 ∨ area2 m b v < 0 := by
    by_contra both
    rw [not_or, not_lt, not_lt] at both
    have low := clear v vMem vm both.1 both.2
    linarith
  have positive {w : Plane} (between : w ∈ segment ℝ z v) : 0 < area2 b a w := by
    have bound := le_area2_of_mem_segment between le_rfl above
    linarith
  rcases corner.exit simple eMem notInto notOut onE vOn inside (by linarith) (by linarith)
      outside with ⟨-, between⟩ | ⟨-, between⟩
  · have contradiction := positive between
    simp at contradiction
  · have contradiction := positive between
    simp at contradiction

/-- Another edge meets the triangle of an ear only at the ends of its base. -/
theorem Ear.meet (simple : SimplePolygon path) (ear : Ear path a m b)
    (noBase : (b, a) ∉ edges path) (eMem : e ∈ edges path) (notInto : e ≠ (a, m))
    (notOut : e ≠ (m, b)) {z : Plane} (onE : z ∈ segment ℝ e.1 e.2)
    (inside : InTriangle a m b z) : z = a ∨ z = b := by
  rcases inside with ⟨am, mb, ba⟩
  have e1m : e.1 ≠ m := fun same =>
    notOut (eq_of_fst_eq simple.nodup eMem ear.out same)
  have e1a : e.1 ≠ a := fun same =>
    notInto (eq_of_fst_eq simple.nodup eMem ear.into same)
  have e2m : e.2 ≠ m := fun same =>
    notInto (eq_of_snd_eq simple.nodup eMem ear.into same)
  have e2b : e.2 ≠ b := fun same =>
    notOut (eq_of_snd_eq simple.nodup eMem ear.out same)
  have leave {v : Plane} (vMem : v ∈ path) (onE' : v ∈ segment ℝ e.1 e.2) (va : v ≠ a)
      (vm : v ≠ m) (vb : v ≠ b) (high : 0 ≤ area2 b a v) :
      e.1 = b ∧ b ∈ segment ℝ z v ∨ e.2 = a ∧ a ∈ segment ℝ z v := by
    apply ear.exit simple eMem notInto notOut onE onE' ⟨am, mb⟩ ba high
    by_contra both
    rw [not_or, not_lt, not_lt] at both
    exact ear.empty v vMem va vm vb ⟨both.1, both.2, high⟩
  have high1 := left_mem_segment ℝ e.1 e.2
  have high2 := right_mem_segment ℝ e.1 e.2
  rcases eq_or_ne e.1 b with e1b | e1b
  · -- the edge that follows the corner
    rcases eq_or_ne z b with same | zb
    · exact .inr same
    · have e2a : e.2 ≠ a := fun same => noBase (by rwa [← e1b, ← same])
      have between : z ∈ segment ℝ e.2 b := by rwa [e1b, segment_symm] at onE
      have high := area2_nonneg_of_mem between zb (area2_left b a) ba
      rcases leave (snd_mem eMem) high2 e2a e2m e2b high with ⟨-, back⟩ | ⟨same, -⟩
      · exact .inr (eq_of_mem_segments between back)
      · exact (e2a same).elim
  · rcases eq_or_ne e.2 a with e2a | e2a
    · -- the edge before the corner
      rcases eq_or_ne z a with same | za
      · exact .inl same
      · have between : z ∈ segment ℝ e.1 a := by rwa [e2a] at onE
        have high := area2_nonneg_of_mem between za (area2_right b a) ba
        rcases leave (fst_mem eMem) high1 e1a e1m e1b high with ⟨same, -⟩ | ⟨-, back⟩
        · exact (e1b same).elim
        · exact .inl (eq_of_mem_segments between back)
    · rcases exists_area2_ge onE with above | above
      · rcases leave (fst_mem eMem) high1 e1a e1m e1b (ba.trans above) with ⟨same, -⟩ | ⟨same, -⟩
        · exact (e1b same).elim
        · exact (e2a same).elim
      · rcases leave (snd_mem eMem) high2 e2a e2m e2b (ba.trans above) with ⟨same, -⟩ | ⟨same, -⟩
        · exact (e1b same).elim
        · exact (e2a same).elim

end Entry

section Clip

variable {a m b : Plane} {rest : List Plane}

theorem edges_corner (a m b : Plane) (rest : List Plane) :
    edges (a :: m :: b :: rest) = (a, m) :: (m, b) :: chain (b :: (rest ++ [a])) := rfl

theorem edges_clipped (a b : Plane) (rest : List Plane) :
    edges (a :: b :: rest) = (a, b) :: chain (b :: (rest ++ [a])) := rfl

/-- Without the corner the triangle is missing. -/
theorem winding_clip (a m b : Plane) (rest : List Plane) (q : Plane) :
    winding (edges (a :: m :: b :: rest)) q =
      winding (edges (a :: b :: rest)) q + around (a - q) (m - q) (b - q) := by
  rw [edges_corner, edges_clipped a b]
  simp only [winding_cons, around, crossing_swap (a - q) (b - q)]
  ring

theorem shoelace_clip (a m b : Plane) (rest : List Plane) :
    shoelace (edges (a :: m :: b :: rest)) =
      shoelace (edges (a :: b :: rest)) + area2 a m b := by
  rw [edges_corner, edges_clipped a b]
  simp only [shoelace_cons, area2, cross, Prod.fst_sub, Prod.snd_sub]
  ring

theorem mem_rest (nodup : (a :: m :: b :: rest).Nodup) {e : Edge}
    (mem : e ∈ chain (b :: (rest ++ [a]))) :
    e ∈ edges (a :: m :: b :: rest) ∧ e ≠ (a, m) ∧ e ≠ (m, b) := by
  have start := fst_mem_side mem
  simp only [List.nodup_cons, List.mem_cons, not_or] at nodup start
  refine ⟨?_, ?_, ?_⟩
  · rw [edges_corner]
    exact List.mem_cons_of_mem _ (List.mem_cons_of_mem _ mem)
  · rintro rfl
    exact start.elim nodup.1.2.1 nodup.1.2.2
  · rintro rfl
    exact start.elim nodup.2.1.1 nodup.2.1.2

theorem corner_of_left (left : 0 < area2 a m b) : Corner (a :: m :: b :: rest) a m b where
  into := by simp [edges_corner]
  out := by simp [edges_corner]
  left := left

/-- The base of an ear is no edge, unless the polygon is a triangle. -/
theorem base_notMem (nodup : (a :: m :: b :: rest).Nodup) (long : rest ≠ []) :
    (b, a) ∉ edges (a :: m :: b :: rest) := by
  cases rest with
  | nil => exact (long rfl).elim
  | cons c rest =>
      intro mem
      have next : (b, c) ∈ edges (a :: m :: b :: c :: rest) := by
        simp [edges_corner]
      have same := eq_of_fst_eq nodup mem next rfl
      simp only [Prod.mk.injEq, true_and] at same
      simp [same] at nodup

variable (simple : SimplePolygon (a :: m :: b :: rest)) (ear : Ear (a :: m :: b :: rest) a m b)
include simple ear

/-- Above its base the triangle of an ear is off the clipped polygon. -/
theorem off_clipped {z : Plane} (am : 0 ≤ area2 a m z) (mb : 0 ≤ area2 m b z)
    (ba : 0 < area2 b a z) : ¬OnEdges (edges (a :: b :: rest)) z := by
  rintro ⟨e, eMem, onE⟩
  rw [edges_clipped] at eMem
  rcases List.mem_cons.mp eMem with rfl | eMem
  · have zero := area2_eq_zero_of_mem onE
    rw [area2_swap] at ba
    simp only at zero
    linarith
  · rcases mem_rest simple.nodup eMem with ⟨eMem, notInto, notOut⟩
    have low : area2 b a z ≤ 0 := by
      apply ear.area2_le simple le_rfl ?_ eMem notInto notOut onE ⟨am, mb⟩
      intro v vMem vm vam vmb
      rcases eq_or_ne v a with rfl | va
      · simp
      rcases eq_or_ne v b with rfl | vb
      · simp
      by_contra high
      exact ear.empty v vMem va vm vb ⟨vam, vmb, (not_le.mp high).le⟩
    linarith

theorem winding_clipped_eq {z : Plane} (am : 0 ≤ area2 a m z) (mb : 0 ≤ area2 m b z)
    (ba : 0 < area2 b a z) :
    winding (edges (a :: b :: rest)) z = winding (edges (a :: b :: rest)) m := by
  apply winding_eq_of_segment (closed_edges _)
  intro w between
  have base : min (area2 b a z) (area2 b a m) ≤ area2 b a w :=
    le_area2_of_mem_segment between (min_le_left _ _) (min_le_right _ _)
  have positive : 0 < min (area2 b a z) (area2 b a m) := lt_min ba ear.base_pos
  apply off_clipped simple ear
  · exact le_area2_of_mem_segment between am (by simp)
  · exact le_area2_of_mem_segment between mb (by simp)
  · exact positive.trans_le base

theorem winding_of_inside {z : Plane} (am : 0 < area2 a m z) (mb : 0 < area2 m b z)
    (ba : 0 < area2 b a z) :
    winding (edges (a :: m :: b :: rest)) z = winding (edges (a :: b :: rest)) m + 1 := by
  rw [winding_clip, winding_clipped_eq simple ear am.le mb.le ba,
    around_eq_one_of_inside am mb ba]

/-- All over the triangle of an ear, its edges apart, the winding number is the same. -/
theorem winding_of_inTriangle {z : Plane} (inside : InTriangle a m b z)
    (off : ¬OnEdges (edges (a :: m :: b :: rest)) z) :
    winding (edges (a :: m :: b :: rest)) z = winding (edges (a :: b :: rest)) m + 1 := by
  rcases inside with ⟨am, mb, ba⟩
  have am' : 0 < area2 a m z := by
    refine am.lt_of_ne' fun zero => off ⟨(a, m), ear.into, ?_⟩
    exact mem_segment_of_area2_eq_zero ear.left zero mb ba
  have mb' : 0 < area2 m b z := by
    refine mb.lt_of_ne' fun zero => off ⟨(m, b), ear.out, ?_⟩
    refine mem_segment_of_area2_eq_zero ?_ zero ba am
    rw [area2_rotate]
    exact ear.left
  -- a step towards the vertex leaves the base
  rcases exists_push (closed_edges _) off (m - z) with ⟨δ, positive, push⟩
  have small : 0 < min δ (1 / 2) := lt_min positive (by norm_num)
  have half : min δ (1 / 2) ≤ 1 / 2 := min_le_right _ _
  have same := (push (min δ (1 / 2)) (by rw [abs_of_pos small]; exact min_le_left _ _)).2
  have shape : z + min δ (1 / 2) • (m - z) = (1 - min δ (1 / 2)) • z + min δ (1 / 2) • m := by
    module
  have total : 1 - min δ (1 / 2) + min δ (1 / 2) = 1 := by ring
  have factor : 0 < 1 - min δ (1 / 2) := by linarith
  rw [← same, shape]
  apply winding_of_inside simple ear
  · rw [area2_combo a m total, area2_right, mul_zero, add_zero]
    exact mul_pos factor am'
  · rw [area2_combo m b total, area2_left, mul_zero, add_zero]
    exact mul_pos factor mb'
  · rw [area2_combo b a total]
    exact add_pos_of_nonneg_of_pos (mul_nonneg factor.le ba) (mul_pos small ear.base_pos)

/-- Across an edge of the ear the winding number is the one without the triangle. -/
theorem exists_across_leg : ∃ z, ¬OnEdges (edges (a :: m :: b :: rest)) z ∧
    winding (edges (a :: m :: b :: rest)) z = winding (edges (a :: b :: rest)) m := by
  have halves : (1 / 2 : ℝ) + 1 / 2 = 1 := by norm_num
  let middle : Plane := (1 / 2 : ℝ) • m + (1 / 2 : ℝ) • b
  have left := ear.left
  have base := ear.base_pos
  have middleAm : area2 a m middle = 1 / 2 * area2 a m b := by
    rw [area2_combo a m halves, area2_right, mul_zero, zero_add]
  have middleMb : area2 m b middle = 0 := by
    rw [area2_combo m b halves, area2_left, area2_right, mul_zero, add_zero]
  have middleBa : area2 b a middle = 1 / 2 * area2 b a m := by
    rw [area2_combo b a halves, area2_left, mul_zero, add_zero]
  have off := off_clipped simple ear (by rw [middleAm]; positivity) middleMb.ge
    (by rw [middleBa]; positivity)
  have inner := winding_clipped_eq simple ear (by rw [middleAm]; positivity) middleMb.ge
    (by rw [middleBa]; positivity)
  rcases exists_push (closed_edges _) off (middle - a) with ⟨δ, positive, push⟩
  rcases push δ (abs_of_pos positive).le with ⟨offPushed, same⟩
  have shape : middle + δ • (middle - a) = (1 + δ) • middle + (-δ) • a := by
    module
  have total : 1 + δ + -δ = 1 := by ring
  have pushedAm : 0 < area2 a m (middle + δ • (middle - a)) := by
    rw [shape, area2_combo a m total, area2_left, mul_zero, add_zero, middleAm]
    positivity
  have pushedMb : area2 m b (middle + δ • (middle - a)) < 0 := by
    rw [shape, area2_combo m b total, middleMb, mul_zero, zero_add, area2_rotate]
    nlinarith
  refine ⟨middle + δ • (middle - a), ?_, ?_⟩
  · rintro ⟨e, eMem, onE⟩
    rw [edges_corner] at eMem
    rcases List.mem_cons.mp eMem with rfl | eMem
    · exact pushedAm.ne' (area2_eq_zero_of_mem onE)
    rcases List.mem_cons.mp eMem with rfl | eMem
    · exact pushedMb.ne (area2_eq_zero_of_mem onE)
    · exact offPushed ⟨e, List.mem_cons_of_mem _ eMem, onE⟩
  · rw [winding_clip, same, inner, around_eq_zero_of_notInTriangle left, add_zero]
    intro inside
    exact pushedMb.not_ge inside.2.1

theorem exists_inside :
    ∃ z, InTriangle a m b z ∧ ¬OnEdges (edges (a :: m :: b :: rest)) z := by
  have halves : (1 / 2 : ℝ) + 1 / 2 = 1 := by norm_num
  have left := ear.left
  have base := ear.base_pos
  let middle : Plane := (1 / 2 : ℝ) • a + (1 / 2 : ℝ) • b
  have am : 0 < area2 a m ((1 / 2 : ℝ) • middle + (1 / 2 : ℝ) • m) := by
    rw [area2_combo a m halves, area2_combo a m halves, area2_left, area2_right]
    linarith
  have mb : 0 < area2 m b ((1 / 2 : ℝ) • middle + (1 / 2 : ℝ) • m) := by
    rw [area2_combo m b halves, area2_combo m b halves, area2_left, area2_right, area2_rotate]
    linarith
  have ba : 0 < area2 b a ((1 / 2 : ℝ) • middle + (1 / 2 : ℝ) • m) := by
    rw [area2_combo b a halves, area2_combo b a halves, area2_left, area2_right]
    linarith
  refine ⟨_, ⟨am.le, mb.le, ba.le⟩, ?_⟩
  rintro ⟨e, eMem, onE⟩
  rw [edges_corner] at eMem
  rcases List.mem_cons.mp eMem with rfl | eMem
  · exact am.ne' (area2_eq_zero_of_mem onE)
  rcases List.mem_cons.mp eMem with rfl | eMem
  · exact mb.ne' (area2_eq_zero_of_mem onE)
  · exact off_clipped simple ear am.le mb.le ba ⟨e, List.mem_cons_of_mem _ eMem, onE⟩

/-- The middle of the base is off the polygon, unless the polygon is a triangle. -/
theorem base_off (long : rest ≠ []) {z : Plane} (mem : z ∈ openSegment ℝ a b) :
    ¬OnEdges (edges (a :: m :: b :: rest)) z := by
  rcases mem with ⟨s, t, sPos, tPos, total, rfl⟩
  have left := ear.left
  have am : 0 < area2 a m (s • a + t • b) := by
    rw [area2_combo a m total, area2_left, mul_zero, zero_add]
    exact mul_pos tPos left
  have mb : 0 < area2 m b (s • a + t • b) := by
    rw [area2_combo m b total, area2_right, mul_zero, add_zero, area2_rotate]
    exact mul_pos sPos left
  have ba : area2 b a (s • a + t • b) = 0 := by
    rw [area2_combo b a total, area2_left, area2_right, mul_zero, mul_zero, add_zero]
  rintro ⟨e, eMem, onE⟩
  rw [edges_corner] at eMem
  rcases List.mem_cons.mp eMem with rfl | eMem
  · exact am.ne' (area2_eq_zero_of_mem onE)
  rcases List.mem_cons.mp eMem with rfl | eMem
  · exact mb.ne' (area2_eq_zero_of_mem onE)
  rcases mem_rest simple.nodup eMem with ⟨eMem, notInto, notOut⟩
  rcases ear.meet simple (base_notMem simple.nodup long) eMem notInto notOut onE
      ⟨am.le, mb.le, ba.ge⟩ with same | same
  · rw [same, area2_left] at am
    exact lt_irrefl 0 am
  · rw [same, area2_right] at mb
    exact lt_irrefl 0 mb

/-- Across its base the clipped polygon has the winding number of the triangle. -/
theorem exists_across_base (long : rest ≠ []) : ∃ z, ¬OnEdges (edges (a :: b :: rest)) z ∧
    winding (edges (a :: b :: rest)) z = winding (edges (a :: b :: rest)) m + 1 := by
  have halves : (1 / 2 : ℝ) + 1 / 2 = 1 := by norm_num
  let middle : Plane := (1 / 2 : ℝ) • a + (1 / 2 : ℝ) • b
  have left := ear.left
  have base := ear.base_pos
  have off := base_off simple ear long (z := middle)
    ⟨1 / 2, 1 / 2, by norm_num, by norm_num, halves, rfl⟩
  have middleBa : area2 b a middle = 0 := by
    rw [area2_combo b a halves, area2_left, area2_right, mul_zero, add_zero]
  have inside : InTriangle a m b middle := by
    refine ⟨?_, ?_, middleBa.ge⟩
    · rw [area2_combo a m halves, area2_left, mul_zero, zero_add]
      positivity
    · rw [area2_combo m b halves, area2_right, mul_zero, add_zero, area2_rotate]
      positivity
  have inner := winding_of_inTriangle simple ear inside off
  rcases exists_push (closed_edges _) off (middle - m) with ⟨δ, positive, push⟩
  rcases push δ (abs_of_pos positive).le with ⟨offPushed, same⟩
  have shape : middle + δ • (middle - m) = (1 + δ) • middle + (-δ) • m := by
    module
  have pushedBa : area2 b a (middle + δ • (middle - m)) < 0 := by
    rw [shape, area2_combo b a (by ring), middleBa, mul_zero, zero_add]
    nlinarith
  refine ⟨middle + δ • (middle - m), ?_, ?_⟩
  · rintro ⟨e, eMem, onE⟩
    rw [edges_clipped] at eMem
    rcases List.mem_cons.mp eMem with rfl | eMem
    · have zero := area2_eq_zero_of_mem onE
      rw [area2_swap] at pushedBa
      simp only at zero
      linarith
    · exact offPushed ⟨e, (mem_rest simple.nodup eMem).1, onE⟩
  · have outside : ¬InTriangle a m b (middle + δ • (middle - m)) := fun inside =>
      pushedBa.not_ge inside.2.2
    rw [winding_clip, around_eq_zero_of_notInTriangle left outside, add_zero] at same
    rw [same, inner]

/-- The base of an ear is a diagonal. -/
theorem base_diagonal (long : rest ≠ []) : Diagonal a b [m] rest where
  simple := simple
  clear _ mem := base_off simple ear long mem

theorem simple_clipped (long : rest ≠ []) : SimplePolygon (a :: b :: rest) := by
  have side := (base_diagonal simple ear long).symm.simple_side
  exact side.rotate (List.isRotated_concat a (b :: rest))

end Clip

end MrsOptimization
