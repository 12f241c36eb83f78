import MrsOptimization.Library.PolygonExtremes
import MrsOptimization.Navigation.FollowWalls

/-!
# The test for an ear

The points of a path as points of the real plane. Where no area overflows, the test of
`triangulate` finds exactly the ears of the polygon, and removing a point by its
coordinates removes the one that was tested. In barycentric coordinates, a point is
found inside a convex corner if it lies in the closed triangle
(`isInsideTriangle_iff_inClosedTriangle`).
-/

namespace MrsOptimization.Navigation

open Plane

/-- A point as a point of the real plane. -/
def MyPoint.toPlane (p : MyPoint) : Plane := (p.x, p.y)

/-- The edges of the closed path meet only where they share an end. -/
def IsSimple (points : List MyPoint) : Prop := SimplePolygon (points.map MyPoint.toPlane)

/-- Twice the signed area inside the closed path. -/
def doubledArea (points : List MyPoint) : ℤ :=
  ((edges points).map fun e => e.1.x * e.2.y - e.1.y * e.2.x).sum

/-- Twice the signed area of a triangle. -/
def turn (p q z : MyPoint) : ℤ := (q.x - p.x) * (z.y - p.y) - (q.y - p.y) * (z.x - p.x)

theorem area2_toPlane (p q z : MyPoint) :
    area2 p.toPlane q.toPlane z.toPlane = turn p q z := by
  simp only [area2, cross, MyPoint.toPlane, turn, Prod.fst_sub, Prod.snd_sub]
  push_cast
  ring

theorem shoelace_toPlane (points : List MyPoint) :
    shoelace (edges (points.map MyPoint.toPlane)) = doubledArea points := by
  simp only [shoelace, doubledArea, edges_map, List.map_map]
  generalize edges points = es
  induction es with
  | nil => simp
  | cons e es ih =>
      simp only [List.map_cons, List.sum_cons, ih, Int.cast_add]
      simp [cross, MyPoint.toPlane]

theorem shoelace_pos_iff (points : List MyPoint) :
    0 < shoelace (edges (points.map MyPoint.toPlane)) ↔ 0 < doubledArea points := by
  rw [shoelace_toPlane]
  norm_cast

theorem shoelace_neg_iff (points : List MyPoint) :
    shoelace (edges (points.map MyPoint.toPlane)) < 0 ↔ doubledArea points < 0 := by
  rw [shoelace_toPlane]
  norm_cast

theorem doubledArea_rotate {points points' : List MyPoint} (rotated : points.IsRotated points') :
    doubledArea points = doubledArea points' :=
  ((edges_perm rotated).map _).sum_eq

theorem doubledArea_clip (prev curr next : MyPoint) (rest : List MyPoint) :
    doubledArea (prev :: curr :: next :: rest) =
      turn prev curr next + doubledArea (prev :: next :: rest) := by
  have clip := shoelace_clip prev.toPlane curr.toPlane next.toPlane (rest.map MyPoint.toPlane)
  have whole := shoelace_toPlane (prev :: curr :: next :: rest)
  have part := shoelace_toPlane (prev :: next :: rest)
  simp only [List.map_cons] at whole part
  rw [whole, part, area2_toPlane] at clip
  rw [add_comm]
  exact_mod_cast clip

theorem turn_swap (p q z : MyPoint) : turn q p z = -turn p q z := by
  simp only [turn]
  ring

theorem turn_split (p q r z : MyPoint) : turn p q z + turn q r z + turn r p z = turn p q r := by
  simp only [turn]
  ring

theorem mul_le_mul_max {x W c : ℤ} (nonneg : 0 ≤ x) (le : x ≤ W) : x * c ≤ W * max c 0 := by
  rcases le_total 0 c with up | down
  · rw [max_eq_left up]
    exact mul_le_mul_of_nonneg_right le up
  · rw [max_eq_right down, mul_zero]
    exact mul_nonpos_of_nonneg_of_nonpos nonneg down

/-- Points at least `l` and `b` and at most `W` and `H` more. -/
def InBox (l b W H : ℤ) (p : MyPoint) : Prop :=
  l ≤ p.x ∧ p.x ≤ l + W ∧ b ≤ p.y ∧ p.y ≤ b + H

/-- A triangle has at most half the area of a box that contains it. -/
theorem turn_le_of_inBox {l b W H : ℤ} {p q z : MyPoint} (pIn : InBox l b W H p)
    (qIn : InBox l b W H q) (zIn : InBox l b W H z) : turn p q z ≤ W * H := by
  rcases pIn with ⟨pl, pr, pb, pt⟩
  rcases qIn with ⟨ql, qr, qb, qt⟩
  rcases zIn with ⟨zl, zr, zb, zt⟩
  have wide : 0 ≤ W := by omega
  have first : (p.x - l) * (q.y - z.y) ≤ W * max (q.y - z.y) 0 :=
    mul_le_mul_max (by omega) (by omega)
  have second : (q.x - l) * (z.y - p.y) ≤ W * max (z.y - p.y) 0 :=
    mul_le_mul_max (by omega) (by omega)
  have third : (z.x - l) * (p.y - q.y) ≤ W * max (p.y - q.y) 0 :=
    mul_le_mul_max (by omega) (by omega)
  -- the positive ones of the three differences are together at most the height
  have rises : max (q.y - z.y) 0 + max (z.y - p.y) 0 + max (p.y - q.y) 0 ≤ H := by omega
  calc turn p q z
      = (p.x - l) * (q.y - z.y) + (q.x - l) * (z.y - p.y) + (z.x - l) * (p.y - q.y) := by
        simp only [turn]
        ring
    _ ≤ W * (max (q.y - z.y) 0 + max (z.y - p.y) 0 + max (p.y - q.y) 0) := by
        rw [mul_add, mul_add]
        exact add_le_add (add_le_add first second) third
    _ ≤ W * H := mul_le_mul_of_nonneg_left rises wide

theorem inTriangle_toPlane (p q r z : MyPoint) :
    InTriangle p.toPlane q.toPlane r.toPlane z.toPlane ↔
      0 ≤ turn p q z ∧ 0 ≤ turn q r z ∧ 0 ≤ turn r p z := by
  simp [InTriangle, area2_toPlane]

theorem get_rotate {E : Type} (list : List E) (start : ℤ) {j : ℕ} (lt : j < list.length) :
    CircularArrayList.get list (start + j) =
      (list.rotate (start % list.length).toNat)[j]? := by
  have positive : (0 : ℤ) < list.length := by omega
  have nonneg := Int.emod_nonneg start positive.ne'
  rw [CircularArrayList.get, List.getElem?_rotate lt]
  congr 1
  zify
  rw [Int.toNat_of_nonneg (Int.emod_nonneg _ positive.ne'), Int.toNat_of_nonneg nonneg,
    add_comm (j : ℤ), Int.emod_add_emod]

/-- The three points that the loop looks at are consecutive. -/
theorem get_corner {E : Type} {list : List E} (three : 3 ≤ list.length) (index : ℤ) :
    ∃ prev curr next rest, list.IsRotated (prev :: curr :: next :: rest) ∧
      CircularArrayList.get list index = some curr ∧
      CircularArrayList.get list (index - 1) = some prev ∧
      CircularArrayList.get list (index + 1) = some next := by
  have first := get_rotate list (index - 1) (j := 0) (by omega)
  have second := get_rotate list (index - 1) (j := 1) (by omega)
  have third := get_rotate list (index - 1) (j := 2) (by omega)
  have length := List.length_rotate list ((index - 1) % list.length).toNat
  have rotated := List.IsRotated.forall list ((index - 1) % list.length).toNat
  generalize list.rotate ((index - 1) % list.length).toNat = turned at *
  match turned, length, rotated with
  | prev :: curr :: next :: rest, _, rotated =>
      refine ⟨prev, curr, next, rest, rotated.symm, ?_, ?_, ?_⟩
      · simpa using second
      · simpa using first
      · have shift : index - 1 + 2 = index + 1 := by omega
        simpa [shift] using third
  | [], length, _ => simp at length; omega
  | [_], length, _ => simp at length; omega
  | [_, _], length, _ => simp at length; omega

namespace NavigationGraphBuilder

section Tests

variable {int : ℤ → ℤ} {points : List MyPoint}

/-- No area of three of the points overflows. -/
def Exact (int : ℤ → ℤ) (points : List MyPoint) : Prop :=
  ∀ p ∈ points, ∀ q ∈ points, ∀ z ∈ points, int (turn p q z) = turn p q z

theorem isConvex_iff (exact : Exact int points) {curr prev next : MyPoint}
    (currMem : curr ∈ points) (prevMem : prev ∈ points) (nextMem : next ∈ points) :
    isConvex int curr prev next = true ↔ 0 < turn prev curr next := by
  have same : curr.x * (next.y - prev.y) + prev.x * (curr.y - next.y) +
      next.x * (prev.y - curr.y) = turn prev curr next := by
    simp only [turn]
    ring
  rw [isConvex, same, exact prev prevMem curr currMem next nextMem, decide_eq_true_eq]

/-- Inside a triangle that turns to the left all three areas of the test are negative or zero. -/
theorem isInsideTriangle_iff (exact : Exact int points) {curr prev next p : MyPoint}
    (currMem : curr ∈ points) (prevMem : prev ∈ points) (nextMem : next ∈ points)
    (pMem : p ∈ points) (left : 0 < turn prev curr next) :
    isInsideTriangle int curr prev next p = true ↔
      InTriangle prev.toPlane curr.toPlane next.toPlane p.toPlane := by
  have first : (curr.x - p.x) * (prev.y - curr.y) - (prev.x - curr.x) * (curr.y - p.y) =
      turn curr prev p := by
    simp only [turn]
    ring
  have second : (prev.x - p.x) * (next.y - prev.y) - (next.x - prev.x) * (prev.y - p.y) =
      turn prev next p := by
    simp only [turn]
    ring
  have third : (next.x - p.x) * (curr.y - next.y) - (curr.x - next.x) * (next.y - p.y) =
      turn next curr p := by
    simp only [turn]
    ring
  have split := turn_split prev curr next p
  have swapped := turn_swap prev curr p
  have swapped' := turn_swap next prev p
  have swapped'' := turn_swap curr next p
  simp only [isInsideTriangle, first, second, third, exact curr currMem prev prevMem p pMem,
    exact prev prevMem next nextMem p pMem, exact next nextMem curr currMem p pMem,
    decide_eq_true_eq, inTriangle_toPlane]
  omega

theorem exact_of_inBox {l b W H bound : ℤ} (int_eq : ∀ v, |v| ≤ bound → int v = v)
    (inBox : ∀ p ∈ points, InBox l b W H p) (fits : W * H ≤ bound) : Exact int points := by
  intro p pMem q qMem z zMem
  apply int_eq
  have upper := turn_le_of_inBox (inBox p pMem) (inBox q qMem) (inBox z zMem)
  have lower := turn_le_of_inBox (inBox q qMem) (inBox p pMem) (inBox z zMem)
  rw [turn_swap] at lower
  rw [abs_le]
  omega

theorem Exact.sublist {points' : List MyPoint} (exact : Exact int points)
    (sublist : points'.Sublist points) : Exact int points' := by
  intro p pMem q qMem z zMem
  exact exact p (sublist.subset pMem) q (sublist.subset qMem) z (sublist.subset zMem)

/-- A polygon whose points are different objects at different places. -/
structure Polygonal (points : List MyPoint) : Prop where
  ids : (points.map MyPoint.id).Nodup
  simple : IsSimple points

theorem Polygonal.id_eq_iff (polygonal : Polygonal points) {p q : MyPoint} (pMem : p ∈ points)
    (qMem : q ∈ points) : p.id = q.id ↔ p.toPlane = q.toPlane := by
  constructor
  · intro same
    rw [List.inj_on_of_nodup_map polygonal.ids pMem qMem same]
  · intro same
    rw [List.inj_on_of_nodup_map polygonal.simple.nodup pMem qMem same]

theorem isEar_eq_true_iff (polygonal : Polygonal points) (exact : Exact int points)
    {prev curr next : MyPoint} (prevMem : prev ∈ points) (currMem : curr ∈ points)
    (nextMem : next ∈ points) (left : 0 < turn prev curr next) :
    isEar int points curr prev next = true ↔
      ∀ p ∈ points, p.toPlane ≠ prev.toPlane → p.toPlane ≠ curr.toPlane →
        p.toPlane ≠ next.toPlane →
          ¬InTriangle prev.toPlane curr.toPlane next.toPlane p.toPlane := by
  rw [isEar, List.all_eq_true]
  refine forall₂_congr fun p pMem => ?_
  rw [← isInsideTriangle_iff exact currMem prevMem nextMem pMem left, ne_eq, ne_eq, ne_eq,
    ← polygonal.id_eq_iff pMem prevMem, ← polygonal.id_eq_iff pMem currMem,
    ← polygonal.id_eq_iff pMem nextMem]
  simp only [Bool.not_eq_true', Bool.and_eq_false_imp, Bool.and_eq_true, bne_iff_ne, ne_eq,
    Bool.not_eq_true]
  tauto

/-- The test of the loop finds exactly the ears. -/
theorem clips_iff (polygonal : Polygonal points) (exact : Exact int points)
    {prev curr next : MyPoint} {rest : List MyPoint}
    (rotated : points.IsRotated (prev :: curr :: next :: rest)) :
    (isConvex int curr prev next && isEar int points curr prev next) = true ↔
      Ear (points.map MyPoint.toPlane) prev.toPlane curr.toPlane next.toPlane := by
  have prevMem : prev ∈ points := rotated.mem_iff.mpr (by simp)
  have currMem : curr ∈ points := rotated.mem_iff.mpr (by simp)
  have nextMem : next ∈ points := rotated.mem_iff.mpr (by simp)
  have perm := edges_perm (rotated.map MyPoint.toPlane)
  rw [Bool.and_eq_true, isConvex_iff exact currMem prevMem nextMem]
  constructor
  · rintro ⟨left, clear⟩
    rw [isEar_eq_true_iff polygonal exact prevMem currMem nextMem left] at clear
    refine ⟨⟨?_, ?_, ?_⟩, ?_⟩
    · rw [perm.mem_iff]
      simp [edges_corner]
    · rw [perm.mem_iff]
      simp [edges_corner]
    · rw [area2_toPlane]
      exact_mod_cast left
    · intro v vMem
      rcases List.mem_map.mp vMem with ⟨p, pMem, rfl⟩
      exact clear p pMem
  · intro ear
    have left : 0 < turn prev curr next := by
      have positive := ear.left
      rw [area2_toPlane] at positive
      exact_mod_cast positive
    refine ⟨left, ?_⟩
    rw [isEar_eq_true_iff polygonal exact prevMem currMem nextMem left]
    intro p pMem
    exact ear.empty p.toPlane (List.mem_map_of_mem pMem)

/-- Without a twin the removal by coordinates removes the vertex at its position. -/
theorem remove_eq_eraseIdx (ids : (points.map MyPoint.id).Nodup) {curr : MyPoint} {j : ℕ}
    (here : points[j]? = some curr)
    (unique : ∀ p ∈ points, p.x = curr.x → p.y = curr.y → p = curr) :
    CircularArrayList.remove points curr = points.eraseIdx j := by
  rcases List.getElem?_eq_some_iff.mp here with ⟨lt, atJ⟩
  have found : points.findIdx? (fun p => p.x = curr.x ∧ p.y = curr.y) = some j := by
    rw [List.findIdx?_eq_some_iff_getElem]
    refine ⟨lt, by simp [atJ], fun i earlier same => ?_⟩
    rw [decide_eq_true_eq] at same
    have again := unique _ (List.getElem_mem (earlier.trans lt)) same.1 same.2
    rw [← atJ, ids.of_map.getElem_inj_iff] at again
    omega
  rw [CircularArrayList.remove, List.eraseP_eq_eraseIdx, found]

/-- What is left of a cyclic list without the entry at an index. -/
theorem isRotated_eraseIdx (ids : (points.map MyPoint.id).Nodup) {prev curr : MyPoint}
    {rest : List MyPoint} {j : ℕ} (here : points[j]? = some curr)
    (rotated : points.IsRotated (prev :: curr :: rest)) :
    (points.eraseIdx j).IsRotated (prev :: rest) := by
  rcases List.getElem?_eq_some_iff.mp here with ⟨lt, rfl⟩
  have split : points = points.take j ++ points[j] :: points.drop (j + 1) := by
    rw [List.getElem_cons_drop, List.take_append_drop]
  have nodup := ids.of_map
  rw [split] at nodup
  rw [List.eraseIdx_eq_take_drop_succ]
  apply isRotated_remove nodup
  rw [← split]
  exact rotated

theorem remove_spec (polygonal : Polygonal points) {prev curr : MyPoint} {rest : List MyPoint}
    (rotated : points.IsRotated (prev :: curr :: rest)) :
    (CircularArrayList.remove points curr).Sublist points ∧
      (CircularArrayList.remove points curr).IsRotated (prev :: rest) := by
  have currMem : curr ∈ points := rotated.mem_iff.mpr (by simp)
  rcases List.mem_iff_getElem?.mp currMem with ⟨j, here⟩
  have removed : CircularArrayList.remove points curr = points.eraseIdx j := by
    apply remove_eq_eraseIdx polygonal.ids here
    intro p pMem sameX sameY
    apply List.inj_on_of_nodup_map polygonal.simple.nodup pMem currMem
    simp [MyPoint.toPlane, sameX, sameY]
  rw [removed]
  exact ⟨List.eraseIdx_sublist points j, isRotated_eraseIdx polygonal.ids here rotated⟩

end Tests

end NavigationGraphBuilder

section ClosedTriangle

/-- A convex combination of the corners. -/
def InClosedTriangle (a b c p : MyPoint) : Prop :=
  ∃ x y z : ℚ, 0 ≤ x ∧ 0 ≤ y ∧ 0 ≤ z ∧ x + y + z = 1 ∧
    (p.x : ℚ) = x * a.x + y * b.x + z * c.x ∧ (p.y : ℚ) = x * a.y + y * b.y + z * c.y

variable {a b c p : MyPoint}

/-- The areas over the edges are proportional to the coordinates. -/
theorem turn_of_combination {x y z : ℚ} (total : x + y + z = 1)
    (horizontal : (p.x : ℚ) = x * a.x + y * b.x + z * c.x)
    (vertical : (p.y : ℚ) = x * a.y + y * b.y + z * c.y) :
    (turn b a p : ℚ) = z * turn b a c := by
  simp only [turn]
  push_cast
  rw [horizontal, vertical]
  linear_combination ((a.x - b.x : ℚ) * b.y - (a.y - b.y) * b.x) * total

theorem turn_rotate (a b c : MyPoint) : turn a c b = turn b a c := by
  simp only [turn]
  ring

theorem InClosedTriangle.rotate (inside : InClosedTriangle a b c p) : InClosedTriangle b c a p := by
  rcases inside with ⟨x, y, z, xNonneg, yNonneg, zNonneg, total, horizontal, vertical⟩
  exact ⟨y, z, x, yNonneg, zNonneg, xNonneg, by linarith, by linarith, by linarith⟩

theorem InClosedTriangle.turn_nonneg (inside : InClosedTriangle a b c p) (left : 0 < turn b a c) :
    0 ≤ turn b a p := by
  rcases inside with ⟨x, y, z, -, -, zNonneg, total, horizontal, vertical⟩
  have area : (0 : ℚ) < turn b a c := by exact_mod_cast left
  have weighted : (0 : ℚ) ≤ turn b a p := by
    rw [turn_of_combination total horizontal vertical]
    exact mul_nonneg zNonneg area.le
  exact_mod_cast weighted

/-- The areas over the edges, divided by the whole area, are the coordinates. -/
theorem inClosedTriangle_of_turns (left : 0 < turn b a c) (first : 0 ≤ turn b a p)
    (second : 0 ≤ turn a c p) (third : 0 ≤ turn c b p) : InClosedTriangle a b c p := by
  have area : (0 : ℚ) < turn b a c := by exact_mod_cast left
  have split : (turn c b p : ℚ) + turn a c p + turn b a p = turn b a c := by
    have whole := turn_split b a c p
    have cast : ((turn b a p + turn a c p + turn c b p : ℤ) : ℚ) = turn b a c := by
      exact_mod_cast whole
    push_cast at cast
    linarith
  refine ⟨turn c b p / turn b a c, turn a c p / turn b a c, turn b a p / turn b a c,
    div_nonneg (by exact_mod_cast third) area.le, div_nonneg (by exact_mod_cast second) area.le,
    div_nonneg (by exact_mod_cast first) area.le, ?_, ?_, ?_⟩
  · rw [← add_div, ← add_div, split, div_self area.ne']
  · field_simp
    simp only [turn]
    push_cast
    ring
  · field_simp
    simp only [turn]
    push_cast
    ring

/-- In a triangle that turns to the left from `b` over `a` to `c`. -/
theorem inClosedTriangle_iff (left : 0 < turn b a c) :
    InClosedTriangle a b c p ↔ 0 ≤ turn b a p ∧ 0 ≤ turn a c p ∧ 0 ≤ turn c b p := by
  constructor
  · intro inside
    have second : 0 < turn a c b := by rwa [turn_rotate]
    have third : 0 < turn c b a := by rwa [turn_rotate]
    exact ⟨inside.turn_nonneg left, inside.rotate.rotate.turn_nonneg second,
      inside.rotate.turn_nonneg third⟩
  · rintro ⟨first, second, third⟩
    exact inClosedTriangle_of_turns left first second third

namespace NavigationGraphBuilder

/-- For a corner that is convex, the test for the triangle is exact at edges and corners too. -/
theorem isInsideTriangle_iff_inClosedTriangle (convex : isConvex id a b c = true)
    (p : MyPoint) : isInsideTriangle id a b c p = true ↔ InClosedTriangle a b c p := by
  have exact : Exact id [a, b, c, p] := fun _ _ _ _ _ _ => rfl
  have aMem : a ∈ [a, b, c, p] := by simp
  have bMem : b ∈ [a, b, c, p] := by simp
  have cMem : c ∈ [a, b, c, p] := by simp
  have left := (isConvex_iff exact aMem bMem cMem).mp convex
  rw [isInsideTriangle_iff exact aMem bMem cMem (by simp) left, inTriangle_toPlane,
    inClosedTriangle_iff left]

/-- The middle of an edge is inside. -/
theorem isInsideTriangle_iff_middle :
    InClosedTriangle ⟨0, 0, 0⟩ ⟨1, 0, 2⟩ ⟨2, 2, 0⟩ ⟨3, 1, 1⟩ :=
  (isInsideTriangle_iff_inClosedTriangle (by decide) ⟨3, 1, 1⟩).mp (by decide)

end NavigationGraphBuilder

end ClosedTriangle

end MrsOptimization.Navigation
