import MrsOptimization.Library.TwoEars

/-!
# Extreme vertices

A quarter turn of the plane keeps simple polygons and their areas, so what holds at the
top of a polygon holds at its extreme vertices in four directions. Where a polygon of
negative area has an ear, the vertex is not extreme. A simple polygon with horizontal
and vertical edges only has four different extreme vertices.
-/

namespace MrsOptimization

open Plane

def quarterTurn (z : Plane) : Plane := (-z.2, z.1)

section QuarterTurn

variable {path : List Plane} {a m b p q z : Plane}

theorem quarterTurn_injective : Function.Injective quarterTurn := by
  intro z z' same
  simp only [quarterTurn, Prod.mk.injEq, neg_inj] at same
  exact Prod.ext same.2 same.1

theorem quarterTurn_four (z : Plane) : quarterTurn^[4] z = z := by
  simp [quarterTurn]

theorem area2_quarterTurn (p q z : Plane) :
    area2 (quarterTurn p) (quarterTurn q) (quarterTurn z) = area2 p q z := by
  simp only [area2, cross, quarterTurn, Prod.fst_sub, Prod.snd_sub]
  ring

theorem exists_of_mem_segment (mem : z ∈ segment ℝ (quarterTurn p) (quarterTurn q)) :
    ∃ z' ∈ segment ℝ p q, z = quarterTurn z' := by
  rcases mem with ⟨s, t, sNonneg, tNonneg, total, rfl⟩
  refine ⟨s • p + t • q, ⟨s, t, sNonneg, tNonneg, total, rfl⟩, ?_⟩
  apply Prod.ext
  · simp only [quarterTurn, Prod.fst_add, Prod.snd_add, Prod.smul_fst, Prod.smul_snd, smul_eq_mul]
    ring
  · simp [quarterTurn]

theorem SimplePolygon.quarterTurn (simple : SimplePolygon path) :
    SimplePolygon (path.map quarterTurn) where
  nodup := simple.nodup.map quarterTurn_injective
  meet e eMem f fMem distinct z onE onF := by
    rw [edges_map] at eMem fMem
    rcases List.mem_map.mp eMem with ⟨e', eMem', rfl⟩
    rcases List.mem_map.mp fMem with ⟨f', fMem', rfl⟩
    rcases exists_of_mem_segment onE with ⟨z', onE', rfl⟩
    rcases exists_of_mem_segment onF with ⟨w, onF', same⟩
    rcases quarterTurn_injective same with rfl
    have distinct' : e' ≠ f' := fun same => distinct (same ▸ rfl)
    simp only [Prod.map_fst, Prod.map_snd, quarterTurn_injective.eq_iff]
    exact simple.meet e' eMem' f' fMem' distinct' z' onE' onF'

theorem shoelace_quarterTurn (path : List Plane) :
    shoelace (edges (path.map quarterTurn)) = shoelace (edges path) := by
  rw [edges_map, shoelace, shoelace, List.map_map]
  congr 1
  apply List.map_congr_left
  intro e _
  simp only [Function.comp_apply, Prod.map_fst, Prod.map_snd, cross, quarterTurn]
  ring

theorem edge_quarterTurn (mem : (p, q) ∈ edges path) :
    (quarterTurn p, quarterTurn q) ∈ edges (path.map quarterTurn) := by
  rw [edges_map]
  exact List.mem_map_of_mem (f := Prod.map quarterTurn quarterTurn) mem

theorem Corner.quarterTurn (corner : Corner path a m b) :
    Corner (path.map quarterTurn) (quarterTurn a) (quarterTurn m) (quarterTurn b) where
  into := edge_quarterTurn corner.into
  out := edge_quarterTurn corner.out
  left := by
    rw [area2_quarterTurn]
    exact corner.left

end QuarterTurn

/-- The polygon after some quarter turns. -/
def turned (path : List Plane) (k : ℕ) : List Plane := path.map quarterTurn^[k]

/-- `m` is the top of the polygon after some quarter turns. -/
def Extreme (path : List Plane) (m : Plane) : Prop := ∃ k, Top (turned path k) (quarterTurn^[k] m)

/-- Every edge is horizontal or vertical. -/
def Rectilinear (path : List Plane) : Prop :=
  ∀ e ∈ edges path, e.1.1 = e.2.1 ∨ e.1.2 = e.2.2

section Extremes

variable {path : List Plane} {a m b : Plane}

@[simp] theorem turned_zero (path : List Plane) : turned path 0 = path := by
  simp [turned]

@[simp] theorem length_turned (path : List Plane) (k : ℕ) :
    (turned path k).length = path.length := by
  simp [turned]

theorem turned_succ (path : List Plane) (k : ℕ) :
    turned path (k + 1) = turned (path.map quarterTurn) k := by
  rw [turned, turned, List.map_map, Function.iterate_succ]

theorem turned_succ' (path : List Plane) (k : ℕ) :
    turned path (k + 1) = (turned path k).map quarterTurn := by
  rw [turned, turned, List.map_map, Function.iterate_succ']

theorem SimplePolygon.turned (simple : SimplePolygon path) (k : ℕ) :
    SimplePolygon (turned path k) := by
  induction k with
  | zero => simpa using simple
  | succ k ih =>
      rw [turned_succ']
      exact ih.quarterTurn

theorem Rectilinear.turned (rectilinear : Rectilinear path) (k : ℕ) :
    Rectilinear (turned path k) := by
  induction k with
  | zero => simpa using rectilinear
  | succ k ih =>
      rw [turned_succ', Rectilinear, edges_map]
      intro e eMem
      rcases List.mem_map.mp eMem with ⟨e', eMem', rfl⟩
      rcases ih e' eMem' with vertical | horizontal
      · exact .inr vertical
      · exact .inl (neg_inj.mpr horizontal)

/-- A polygon of negative area does not turn to the left at an extreme vertex. -/
theorem Corner.not_extreme (simple : SimplePolygon path) (long : 3 ≤ path.length)
    (negative : shoelace (edges path) < 0) (corner : Corner path a m b) : ¬Extreme path m := by
  rintro ⟨k, top⟩
  induction k generalizing path a m b with
  | zero =>
      rw [turned_zero] at top
      have positive := (solid_of_turnsLeft simple long ⟨a, m, b, top, corner⟩).area
      linarith
  | succ k ih =>
      rw [turned_succ] at top
      refine ih simple.quarterTurn ?_ ?_ corner.quarterTurn top
      · rwa [List.length_map]
      · rwa [shoelace_quarterTurn]

theorem Extreme.sublist {path' : List Plane} (extreme : Extreme path m)
    (sublist : path'.Sublist path) (mem : m ∈ path') : Extreme path' m := by
  rcases extreme with ⟨k, -, below⟩
  refine ⟨k, List.mem_map_of_mem mem, fun v vMem => ?_⟩
  exact below v ((sublist.map _).subset vMem)

/-- The top of a rectilinear polygon is not the top after a quarter turn. -/
theorem Top.not_quarterTurn (simple : SimplePolygon path) (long : 3 ≤ path.length)
    (rectilinear : Rectilinear path) (top : Top path m) :
    ¬Top (path.map quarterTurn) (quarterTurn m) := by
  intro top'
  rcases exists_corner long top.mem with ⟨a, b, rest, rotated⟩
  have perm := edges_perm rotated
  have into : (a, m) ∈ edges path := perm.mem_iff.mpr (by simp [edges_corner])
  have out : (m, b) ∈ edges path := perm.mem_iff.mpr (by simp [edges_corner])
  have nodup := rotated.nodup_iff.mp simple.nodup
  simp only [List.nodup_cons, List.mem_cons, not_or] at nodup
  have bm : b ≠ m := Ne.symm nodup.2.1.1
  -- a vertical edge would go on below the top
  have level {v : Plane} (vMem : v ∈ path) (vm : v ≠ m) (axis : v.1 = m.1 ∨ v.2 = m.2) :
      v.2 = m.2 := by
    rcases axis with vertical | horizontal
    · have below := top.below v vMem vm
      have below' := top'.below (quarterTurn v) (List.mem_map_of_mem vMem)
        (quarterTurn_injective.ne vm)
      simp only [Below, quarterTurn, neg_lt_neg_iff] at below below'
      rcases below with lower | ⟨same, -⟩
      · rcases below' with further | ⟨-, higher⟩ <;> linarith
      · exact same
    · exact horizontal
  have aLevel : a.2 = m.2 := level (fst_mem into) nodup.1.1 (rectilinear (a, m) into)
  have bLevel : b.2 = m.2 :=
    level (snd_mem out) bm ((rectilinear (m, b) out).imp Eq.symm Eq.symm)
  apply top.area2_ne_zero simple into out nodup.1.1 bm nodup.1.2.1
  simp only [area2, cross, Prod.fst_sub, Prod.snd_sub, aLevel, bLevel]
  ring

/-- The top of a polygon is not its bottom. -/
theorem Top.not_halfTurn (simple : SimplePolygon path) (long : 3 ≤ path.length)
    (top : Top path m) :
    ¬Top ((path.map quarterTurn).map quarterTurn) (quarterTurn (quarterTurn m)) := by
  intro top'
  rcases exists_corner long top.mem with ⟨a, b, rest, rotated⟩
  have nodup := rotated.nodup_iff.mp simple.nodup
  simp only [List.nodup_cons, List.mem_cons, not_or] at nodup
  have aMem : a ∈ path := rotated.mem_iff.mpr (by simp)
  have below := top.below a aMem nodup.1.1
  have below' := top'.below (quarterTurn (quarterTurn a))
    (List.mem_map_of_mem (List.mem_map_of_mem aMem))
    (quarterTurn_injective.ne (quarterTurn_injective.ne nodup.1.1))
  simp only [Below, quarterTurn, neg_lt_neg_iff] at below below'
  rcases below with lower | ⟨same, further⟩ <;> rcases below' with higher | ⟨same', nearer⟩ <;>
    linarith

theorem exists_extreme (nonempty : path ≠ []) (k : ℕ) :
    ∃ m ∈ path, Top (turned path k) (quarterTurn^[k] m) := by
  rcases @exists_top (turned path k) (by simpa [turned] using nonempty) with ⟨v, top⟩
  rcases List.mem_map.mp top.mem with ⟨m, mMem, rfl⟩
  exact ⟨m, mMem, top⟩

/-- A rectilinear simple polygon has four different extreme vertices. -/
theorem exists_four_extremes (simple : SimplePolygon path) (long : 3 ≤ path.length)
    (rectilinear : Rectilinear path) :
    ∃ ends : List Plane, ends.Nodup ∧ ends.length = 4 ∧
      ∀ m ∈ ends, m ∈ path ∧ Extreme path m := by
  have nonempty : path ≠ [] := by
    rintro rfl
    simp at long
  have next {k : ℕ} {m : Plane} (top : Top (turned path k) (quarterTurn^[k] m))
      (top' : Top (turned path (k + 1)) (quarterTurn^[k + 1] m)) : False := by
    rw [turned_succ', Function.iterate_succ_apply'] at top'
    exact top.not_quarterTurn (simple.turned k) (by simpa using long) (rectilinear.turned k) top'
  have opposite {k : ℕ} {m : Plane} (top : Top (turned path k) (quarterTurn^[k] m))
      (top' : Top (turned path (k + 2)) (quarterTurn^[k + 2] m)) : False := by
    rw [turned_succ', turned_succ', Function.iterate_succ_apply',
      Function.iterate_succ_apply'] at top'
    exact top.not_halfTurn (simple.turned k) (by simpa using long) top'
  rcases exists_extreme nonempty 0 with ⟨top, topMem, isTop⟩
  rcases exists_extreme nonempty 1 with ⟨right, rightMem, isRight⟩
  rcases exists_extreme nonempty 2 with ⟨bottom, bottomMem, isBottom⟩
  rcases exists_extreme nonempty 3 with ⟨left, leftMem, isLeft⟩
  have again : Top (turned path 4) (quarterTurn^[4] top) := by
    have whole : quarterTurn^[4] = id := funext quarterTurn_four
    rw [turned, whole, List.map_id]
    simpa using isTop
  refine ⟨[top, right, bottom, left], ?_, rfl, ?_⟩
  · simp only [List.nodup_cons, List.mem_cons, List.not_mem_nil, or_false, not_or,
      not_false_eq_true, List.nodup_nil, and_true]
    refine ⟨⟨?_, ?_, ?_⟩, ⟨?_, ?_⟩, ?_⟩
    · rintro rfl
      exact next isTop isRight
    · rintro rfl
      exact opposite isTop isBottom
    · rintro rfl
      exact next isLeft again
    · rintro rfl
      exact next isRight isBottom
    · rintro rfl
      exact opposite isRight isLeft
    · rintro rfl
      exact next isBottom isLeft
  · simp only [List.mem_cons, List.not_mem_nil, or_false]
    rintro m (rfl | rfl | rfl | rfl)
    · exact ⟨topMem, 0, isTop⟩
    · exact ⟨rightMem, 1, isRight⟩
    · exact ⟨bottomMem, 2, isBottom⟩
    · exact ⟨leftMem, 3, isLeft⟩

end Extremes

end MrsOptimization
