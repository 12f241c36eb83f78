import MrsOptimization.Library.PolygonTop
import Mathlib.Topology.LocallyConstant.Basic

/-!
# Every simple polygon has two ears

A simple polygon that turns to the left at its top vertex has winding numbers zero and
one only, a positive area, and for each of its edges an ear that is no end of the edge.
By induction on the number of vertices: the polygon is split along the base of the top
corner or, if the triangle of the corner is not empty, along a diagonal from the top.
Clipping an ear keeps the polygon simple and its area positive.
-/

namespace MrsOptimization

open Plane Filter Topology

/-- What is proved of a simple polygon that turns to the left at its top. -/
structure Solid (path : List Plane) : Prop where
  winding : ∀ q, ¬OnEdges (edges path) q →
    winding (edges path) q = 0 ∨ winding (edges path) q = 1
  area : 0 < shoelace (edges path)
  ear : ∀ e ∈ edges path, ∃ a m b, Ear path a m b ∧ m ≠ e.1 ∧ m ≠ e.2

section Rotation

variable {path path' : List Plane} {a m b : Plane}

theorem Ear.rotate (ear : Ear path a m b) (rotated : path.IsRotated path') :
    Ear path' a m b where
  into := (edges_perm rotated).mem_iff.mp ear.into
  out := (edges_perm rotated).mem_iff.mp ear.out
  left := ear.left
  empty v vMem := ear.empty v (rotated.mem_iff.mpr vMem)

theorem Solid.rotate (solid : Solid path) (rotated : path.IsRotated path') : Solid path' where
  winding q off := by
    have perm := edges_perm rotated
    rw [← onEdges_perm perm] at off
    rw [← winding_perm perm]
    exact solid.winding q off
  area := by
    rw [← shoelace_perm (edges_perm rotated)]
    exact solid.area
  ear e eMem := by
    rcases solid.ear e ((edges_perm rotated).mem_iff.mpr eMem) with ⟨a, m, b, ear, other, other'⟩
    exact ⟨a, m, b, ear.rotate rotated, other, other'⟩

theorem Corner.exists_rotated (nodup : path.Nodup) (long : 3 ≤ path.length)
    (corner : Corner path a m b) : ∃ rest, path.IsRotated (a :: m :: b :: rest) := by
  rcases exists_corner long (snd_mem corner.into) with ⟨a', b', rest, rotated⟩
  have perm := edges_perm rotated
  have into : (a', m) ∈ edges path := perm.mem_iff.mpr (by simp [edges_corner])
  have out : (m, b') ∈ edges path := perm.mem_iff.mpr (by simp [edges_corner])
  have before := eq_of_snd_eq nodup corner.into into rfl
  have after := eq_of_fst_eq nodup corner.out out rfl
  simp only [Prod.mk.injEq, and_true, true_and] at before after
  subst before after
  exact ⟨rest, rotated⟩

/-- In a solid polygon an ear is outside of what is left when it is clipped. -/
theorem Solid.winding_clipped {rest : List Plane} (solid : Solid (a :: m :: b :: rest))
    (simple : SimplePolygon (a :: m :: b :: rest)) (ear : Ear (a :: m :: b :: rest) a m b) :
    MrsOptimization.winding (edges (a :: b :: rest)) m = 0 := by
  rcases exists_inside simple ear with ⟨z, inside, off⟩
  rcases exists_across_leg simple ear with ⟨z', off', outer⟩
  have inner := winding_of_inTriangle simple ear inside off
  have values := solid.winding z off
  have values' := solid.winding z' off'
  omega

/-- In a solid polygon the triangle of an ear is inside. -/
theorem Solid.winding_ear (solid : Solid path) (simple : SimplePolygon path)
    (long : 3 ≤ path.length) (ear : Ear path a m b) {z : Plane} (inside : InTriangle a m b z)
    (off : ¬OnEdges (edges path) z) : MrsOptimization.winding (edges path) z = 1 := by
  rcases ear.exists_rotated simple.nodup long with ⟨rest, rotated⟩
  have perm := edges_perm rotated
  have simple' := simple.rotate rotated
  have ear' := ear.rotate rotated
  rw [onEdges_perm perm] at off
  rw [winding_perm perm, winding_of_inTriangle simple' ear' inside off,
    (solid.rotate rotated).winding_clipped simple' ear', zero_add]

end Rotation

namespace Diagonal

variable {p d : Plane} {xs ys : List Plane}

/-- Points inside both sides of a diagonal. -/
def InBoth (p d : Plane) (xs ys : List Plane) (z : Plane) : Prop :=
  (¬OnEdges (edges (p :: (xs ++ [d]))) z ∧ winding (edges (p :: (xs ++ [d]))) z = 1) ∧
    ¬OnEdges (edges (d :: (ys ++ [p]))) z ∧ winding (edges (d :: (ys ++ [p]))) z = 1

theorem off_diagonal {z : Plane} (off : ¬OnEdges (edges (p :: (xs ++ [d]))) z) :
    z ∉ segment ℝ p d := by
  intro mem
  rw [segment_symm] at mem
  exact off ⟨(d, p), mem_edges_side.mpr (.inr rfl), mem⟩

/-- Off the diagonal a point of one side is off the other side and not inside it. -/
theorem eventually_not_inBoth (diagonal : Diagonal p d xs ys)
    (vertex : ∃ y ∈ ys, winding (edges (p :: (xs ++ [d]))) y = 0) {z : Plane}
    (onSide : OnEdges (edges (d :: (ys ++ [p]))) z) (away : z ∉ segment ℝ p d) :
    ∀ᶠ z' in 𝓝 z, winding (edges (p :: (xs ++ [d]))) z' ≠ 1 := by
  rcases onSide with ⟨f, fMem, onF⟩
  rcases mem_edges_side.mp fMem with fMem | rfl
  · have notP : z ≠ p := fun same => away (same ▸ left_mem_segment ℝ p d)
    have notD : z ≠ d := fun same => away (same ▸ right_mem_segment ℝ p d)
    rcases diagonal.winding_eq_zero vertex fMem onF notP notD with ⟨off, zero⟩
    filter_upwards [eventually_winding_eq (closed_edges _) off] with z' near
    omega
  · exact (away onF).elim

theorem eventually_inBoth_iff (diagonal : Diagonal p d xs ys)
    (leftZero : ∃ y ∈ ys, winding (edges (p :: (xs ++ [d]))) y = 0)
    (rightZero : ∃ x ∈ xs, winding (edges (d :: (ys ++ [p]))) x = 0) {z : Plane}
    (away : z ∉ segment ℝ p d) : ∀ᶠ z' in 𝓝 z, InBoth p d xs ys z' = InBoth p d xs ys z := by
  by_cases onLeft : OnEdges (edges (p :: (xs ++ [d]))) z
  · have away' : z ∉ segment ℝ d p := by rwa [segment_symm]
    filter_upwards [diagonal.symm.eventually_not_inBoth rightZero onLeft away'] with z' near
    simp [InBoth, near, onLeft]
  by_cases onRight : OnEdges (edges (d :: (ys ++ [p]))) z
  · filter_upwards [diagonal.eventually_not_inBoth leftZero onRight away] with z' near
    simp [InBoth, near, onRight]
  filter_upwards [eventually_winding_eq (closed_edges _) onLeft,
    eventually_winding_eq (closed_edges _) onRight] with z' nearLeft nearRight
  simp [InBoth, nearLeft, nearRight, onLeft, onRight]

/-- A vertical ray that avoids the diagonal does not leave the common inside. -/
theorem inBoth_along (diagonal : Diagonal p d xs ys)
    (leftZero : ∃ y ∈ ys, winding (edges (p :: (xs ++ [d]))) y = 0)
    (rightZero : ∃ x ∈ xs, winding (edges (d :: (ys ++ [p]))) x = 0) {q u : Plane}
    (avoid : ∀ t : ℝ, q + |t| • u ∉ segment ℝ p d) (both : InBoth p d xs ys q) (t : ℝ) :
    InBoth p d xs ys (q + |t| • u) := by
  have continuous : Continuous fun t : ℝ => q + |t| • u := by fun_prop
  have constant : IsLocallyConstant fun t : ℝ => InBoth p d xs ys (q + |t| • u) := by
    rw [IsLocallyConstant.iff_eventually_eq]
    intro t
    exact continuous.continuousAt.eventually
      (diagonal.eventually_inBoth_iff leftZero rightZero (avoid t))
  have same := constant.apply_eq_of_preconnectedSpace t 0
  simp only [abs_zero, zero_smul, add_zero] at same
  rw [same]
  exact both

/-- One of the two vertical rays from a point off the diagonal avoids it. -/
theorem exists_ray {q : Plane} (away : q ∉ segment ℝ p d) :
    (∀ t : ℝ, q + |t| • ((0, 1) : Plane) ∉ segment ℝ p d) ∨
      ∀ t : ℝ, q + |t| • ((0, -1) : Plane) ∉ segment ℝ p d := by
  by_contra both
  simp only [not_or, not_forall, not_not] at both
  rcases both with ⟨⟨t, up⟩, t', down⟩
  apply away
  refine (convex_segment p d).segment_subset up down ?_
  rcases eq_or_ne (|t| + |t'|) 0 with zero | nonzero
  · have none : |t| = 0 := by linarith [abs_nonneg t, abs_nonneg t']
    simp [none, left_mem_segment]
  · have positive : 0 < |t| + |t'| := lt_of_le_of_ne (by positivity) nonzero.symm
    refine ⟨|t'| / (|t| + |t'|), |t| / (|t| + |t'|), by positivity, by positivity, ?_, ?_⟩
    · field_simp
      ring
    · apply Prod.ext
      · simp only [Prod.fst_add, Prod.smul_fst, smul_eq_mul, mul_zero, add_zero]
        field_simp
        ring
      · simp only [Prod.snd_add, Prod.smul_snd, smul_eq_mul, mul_one]
        field_simp
        ring

theorem exists_lower (path : List Plane) : ∃ c : ℝ, ∀ v ∈ path, c < v.2 := by
  induction path with
  | nil => exact ⟨0, by simp⟩
  | cons p rest ih =>
      rcases ih with ⟨c, below⟩
      refine ⟨min c (p.2 - 1), fun v vMem => ?_⟩
      rcases List.mem_cons.mp vMem with rfl | vMem
      · linarith [min_le_right c (v.2 - 1)]
      · exact (min_le_left _ _).trans_lt (below v vMem)

/-- No point is inside both sides of a diagonal: it could move away on a vertical ray. -/
theorem not_inBoth (diagonal : Diagonal p d xs ys)
    (leftZero : ∃ y ∈ ys, winding (edges (p :: (xs ++ [d]))) y = 0)
    (rightZero : ∃ x ∈ xs, winding (edges (d :: (ys ++ [p]))) x = 0) (q : Plane) :
    ¬InBoth p d xs ys q := by
  intro both
  rcases exists_ray (off_diagonal both.1.1) with avoid | avoid
  · rcases exists_top (List.cons_ne_nil p (xs ++ [d])) with ⟨m, top⟩
    have far := (diagonal.inBoth_along leftZero rightZero avoid both (m.2 - q.2)).1.2
    rw [winding_eq_zero_of_le] at far
    · omega
    · intro v vMem
      have bound := top.le vMem
      have reach := le_abs_self (m.2 - q.2)
      simp only [Prod.snd_add, Prod.smul_snd, smul_eq_mul, mul_one]
      linarith
  · rcases exists_lower (p :: (xs ++ [d])) with ⟨c, lower⟩
    have far := (diagonal.inBoth_along leftZero rightZero avoid both (q.2 - c)).1.2
    have reach := le_abs_self (q.2 - c)
    rw [winding_eq_zero_of_above] at far
    · omega
    · intro e eMem
      have bound := lower e.1 (fst_mem eMem)
      have bound' := lower e.2 (snd_mem eMem)
      simp only [Prod.snd_add, Prod.smul_snd, smul_eq_mul, mul_neg, mul_one]
      constructor <;> linarith

/-- An ear of one side that is no end of the diagonal is an ear of the polygon. -/
theorem ear_of_side (diagonal : Diagonal p d xs ys) (solid : Solid (p :: (xs ++ [d])))
    (more : xs ≠ []) (leftZero : ∃ y ∈ ys, winding (edges (p :: (xs ++ [d]))) y = 0)
    {a m b : Plane} (ear : Ear (p :: (xs ++ [d])) a m b) (notP : m ≠ p) (notD : m ≠ d) :
    Ear (p :: (xs ++ d :: ys)) a m b where
  into := by
    rcases mem_edges_side.mp ear.into with mem | same
    · exact mem_edges_split.mpr (.inl mem)
    · simp only [Prod.mk.injEq] at same
      exact (notP same.2).elim
  out := by
    rcases mem_edges_side.mp ear.out with mem | same
    · exact mem_edges_split.mpr (.inl mem)
    · simp only [Prod.mk.injEq] at same
      exact (notD same.1).elim
  left := ear.left
  empty v vMem va vm vb inside := by
    by_cases onSide : v ∈ p :: (xs ++ [d])
    · exact ear.empty v onSide va vm vb inside
    · have vMem : v ∈ ys := by
        simp only [List.mem_cons, List.mem_append, List.not_mem_nil, or_false] at vMem onSide
        tauto
      have long : 3 ≤ (p :: (xs ++ [d])).length := by
        have positive := List.length_pos_iff.mpr more
        simp only [List.length_cons, List.length_append, List.length_nil]
        omega
      have one := solid.winding_ear diagonal.simple_side long ear inside (diagonal.off_side vMem)
      rcases leftZero with ⟨y, yMem, zero⟩
      rw [diagonal.winding_eq_of_mem vMem yMem, zero] at one
      omega

theorem winding_of_away (diagonal : Diagonal p d xs ys) (solid : Solid (p :: (xs ++ [d])))
    (solid' : Solid (d :: (ys ++ [p])))
    (leftZero : ∃ y ∈ ys, winding (edges (p :: (xs ++ [d]))) y = 0)
    (rightZero : ∃ x ∈ xs, winding (edges (d :: (ys ++ [p]))) x = 0) {q : Plane}
    (off : ¬OnEdges (edges (p :: (xs ++ d :: ys))) q) (away : q ∉ segment ℝ p d) :
    winding (edges (p :: (xs ++ d :: ys))) q = 0 ∨
      winding (edges (p :: (xs ++ d :: ys))) q = 1 := by
  have offLeft : ¬OnEdges (edges (p :: (xs ++ [d]))) q := by
    rintro ⟨e, eMem, onE⟩
    rcases mem_edges_side.mp eMem with eMem | rfl
    · exact off ⟨e, mem_edges_split.mpr (.inl eMem), onE⟩
    · exact away (segment_symm ℝ d p ▸ onE)
  have offRight : ¬OnEdges (edges (d :: (ys ++ [p]))) q := by
    rintro ⟨e, eMem, onE⟩
    rcases mem_edges_side.mp eMem with eMem | rfl
    · exact off ⟨e, mem_edges_split.mpr (.inr eMem), onE⟩
    · exact away onE
  have notBoth := diagonal.not_inBoth leftZero rightZero q
  simp only [InBoth, offLeft, offRight, not_false_eq_true, true_and, not_and] at notBoth
  rw [winding_split]
  rcases solid.winding q offLeft with left | left <;>
    rcases solid'.winding q offRight with right | right
  · simp [left, right]
  · simp [left, right]
  · simp [left, right]
  · exact (notBoth left right).elim

/-- A step at a right angle leaves the line of the diagonal. -/
theorem exists_away {q : Plane} (pd : p ≠ d) (mem : q ∈ segment ℝ p d) {δ : ℝ} (positive : 0 < δ) :
    q + δ • ((p.2 - d.2, d.1 - p.1) : Plane) ∉ segment ℝ p d := by
  intro stays
  have zero := area2_eq_zero_of_mem mem
  have zero' := area2_eq_zero_of_mem stays
  simp only [area2, cross, Prod.fst_sub, Prod.snd_sub, Prod.fst_add, Prod.snd_add,
    Prod.smul_fst, Prod.smul_snd, smul_eq_mul] at zero zero'
  have product : δ * ((d.1 - p.1) ^ 2 + (d.2 - p.2) ^ 2) = 0 := by
    linear_combination zero' - zero
  have squares := (mul_eq_zero.mp product).resolve_left positive.ne'
  apply pd
  apply Prod.ext
  · nlinarith [sq_nonneg (d.1 - p.1), sq_nonneg (d.2 - p.2)]
  · nlinarith [sq_nonneg (d.1 - p.1), sq_nonneg (d.2 - p.2)]

/-- For an edge of the other side, an ear of the polygon that is no end of it. -/
theorem exists_ear_apart (diagonal : Diagonal p d xs ys) (solid : Solid (p :: (xs ++ [d])))
    (leftZero : ∃ y ∈ ys, winding (edges (p :: (xs ++ [d]))) y = 0) {e : Edge}
    (eMem : e ∈ chain (d :: (ys ++ [p]))) :
    ∃ a m b, Ear (p :: (xs ++ d :: ys)) a m b ∧ m ≠ e.1 ∧ m ≠ e.2 := by
  rcases diagonal.notMem with ⟨-, -, -, -, -, apart⟩
  rcases solid.ear (d, p) (mem_edges_side.mpr (.inr rfl)) with ⟨a, m, b, ear, notD, notP⟩
  have mMem : m ∈ xs := by
    have mem := snd_mem ear.into
    simp only [List.mem_cons, List.mem_append, List.not_mem_nil, or_false] at mem
    tauto
  have more : xs ≠ [] := List.ne_nil_of_mem mMem
  refine ⟨a, m, b, diagonal.ear_of_side solid more leftZero ear notP notD, ?_, ?_⟩
  · intro same
    have mem := fst_mem_side eMem
    rw [← same] at mem
    rcases List.mem_cons.mp mem with atD | inYs
    · exact notD atD
    · exact apart m mMem inYs
  · intro same
    have mem := snd_mem_side eMem
    rw [← same] at mem
    rcases List.mem_append.mp mem with inYs | atP
    · exact apart m mMem inYs
    · exact notP (List.mem_singleton.mp atP)

/-- Two solid sides that see each other's vertices outside make a solid polygon. -/
theorem solid (diagonal : Diagonal p d xs ys) (solid : Solid (p :: (xs ++ [d])))
    (solid' : Solid (d :: (ys ++ [p])))
    (leftZero : ∃ y ∈ ys, winding (edges (p :: (xs ++ [d]))) y = 0)
    (rightZero : ∃ x ∈ xs, winding (edges (d :: (ys ++ [p]))) x = 0) :
    Solid (p :: (xs ++ d :: ys)) where
  winding q off := by
    by_cases mem : q ∈ segment ℝ p d
    · rcases exists_push (closed_edges _) off ((p.2 - d.2, d.1 - p.1) : Plane) with
        ⟨δ, positive, push⟩
      rcases push δ (abs_of_pos positive).le with ⟨off', same⟩
      rw [← same]
      exact diagonal.winding_of_away solid solid' leftZero rightZero off'
        (exists_away diagonal.notMem.1 mem positive)
    · exact diagonal.winding_of_away solid solid' leftZero rightZero off mem
  area := by
    rw [shoelace_split]
    exact add_pos solid.area solid'.area
  ear e eMem := by
    rcases mem_edges_split.mp eMem with eMem | eMem
    · rcases diagonal.symm.exists_ear_apart solid' rightZero eMem with ⟨a, m, b, ear, other, other'⟩
      exact ⟨a, m, b, ear.rotate (rotated p d xs ys).symm, other, other'⟩
    · exact diagonal.exists_ear_apart solid leftZero eMem

end Diagonal

section Triangle

variable {a m b : Plane}

theorem onEdges_triangle {z : Plane} : OnEdges (edges [a, m, b]) z ↔
    z ∈ segment ℝ a m ∨ z ∈ segment ℝ m b ∨ z ∈ segment ℝ b a := by
  simp [OnEdges, edges, chain]

theorem winding_triangle (q : Plane) :
    winding (edges [a, m, b]) q = around (a - q) (m - q) (b - q) := by
  simp [edges, chain, around, add_assoc]

theorem ear_triangle (left : 0 < area2 a m b) : Ear [a, m, b] a m b where
  into := by simp [edges, chain]
  out := by simp [edges, chain]
  left := left
  empty v vMem va vm vb := by simp_all

theorem solid_triangle (distinct : [a, m, b].Nodup) (left : 0 < area2 a m b) :
    Solid [a, m, b] where
  winding q off := by
    rw [onEdges_triangle, not_or, not_or] at off
    rw [winding_triangle]
    by_cases inside : InTriangle a m b q
    · rcases inside with ⟨am, mb, ba⟩
      have mba : 0 < area2 m b a := by rwa [area2_rotate]
      have bam : 0 < area2 b a m := by rwa [area2_rotate, area2_rotate]
      right
      apply around_eq_one_of_inside
      · exact am.lt_of_ne' fun zero => off.1 (mem_segment_of_area2_eq_zero left zero mb ba)
      · exact mb.lt_of_ne' fun zero => off.2.1 (mem_segment_of_area2_eq_zero mba zero ba am)
      · exact ba.lt_of_ne' fun zero => off.2.2 (mem_segment_of_area2_eq_zero bam zero am mb)
    · exact .inl (around_eq_zero_of_notInTriangle left inside)
  area := by
    rw [shoelace_clip]
    simpa [edges, chain, cross_swap a b] using left
  ear e eMem := by
    have mba : 0 < area2 m b a := by rwa [area2_rotate]
    have bam : 0 < area2 b a m := by rwa [area2_rotate, area2_rotate]
    have once : [m, b, a].IsRotated [a, m, b] := (List.isRotated_concat a [m, b])
    have twice : [b, a, m].IsRotated [a, m, b] := List.IsRotated.cons_append_singleton
    simp only [List.nodup_cons, List.mem_cons, List.not_mem_nil, or_false, not_or] at distinct
    simp only [edges, chain, List.cons_append, List.nil_append, List.mem_cons, List.not_mem_nil,
      or_false] at eMem
    rcases eMem with rfl | rfl | rfl
    · exact ⟨m, b, a, (ear_triangle mba).rotate once, by tauto, by tauto⟩
    · exact ⟨b, a, m, (ear_triangle bam).rotate twice, by tauto, by tauto⟩
    · exact ⟨a, m, b, ear_triangle left, by tauto, by tauto⟩

end Triangle

section Induction

variable {path : List Plane}

/-- A simple polygon with a point inside turns to the left. -/
theorem turnsLeft_of_winding (simple : SimplePolygon path) (long : 3 ≤ path.length)
    (solid : TurnsLeft path.reverse → Solid path.reverse) {z : Plane}
    (off : ¬OnEdges (edges path) z) (inside : winding (edges path) z = 1) : TurnsLeft path := by
  rcases turnsLeft_or_reverse simple long with left | reversed
  · exact left
  · have perm := edges_reverse_perm path
    have off' : ¬OnEdges (edges path.reverse) z := by
      rwa [onEdges_perm perm, onEdges_swap]
    have value := (solid reversed).winding z off'
    rw [winding_perm perm, winding_swap, inside] at value
    omega

/-- The corner at the top holds no vertex: its triangle is cut off. -/
theorem solid_of_ear {a m b : Plane} {rest : List Plane}
    (simple : SimplePolygon (a :: m :: b :: rest)) (top : Top (a :: m :: b :: rest) m)
    (ear : Ear (a :: m :: b :: rest) a m b) (long : rest ≠ [])
    (solid : TurnsLeft (a :: b :: rest) → Solid (a :: b :: rest))
    (reversed : TurnsLeft (a :: b :: rest).reverse → Solid (a :: b :: rest).reverse) :
    Solid (a :: m :: b :: rest) := by
  have diagonal := base_diagonal simple ear long
  have rotated : (b :: (rest ++ [a])).IsRotated (a :: b :: rest) :=
    List.isRotated_concat a (b :: rest)
  have seen : winding (edges (a :: b :: rest)) m = 0 := by
    apply winding_eq_zero_of_le
    intro v vMem
    apply top.le
    simp only [List.mem_cons] at vMem ⊢
    tauto
  rcases exists_across_base simple ear long with ⟨z, off, inside⟩
  rw [seen, zero_add] at inside
  have long' : 3 ≤ (a :: b :: rest).length := by
    have positive := List.length_pos_iff.mpr long
    simp only [List.length_cons]
    omega
  have left := turnsLeft_of_winding (simple_clipped simple ear long) long' reversed off inside
  have distinct : [a, m, b].Nodup :=
    (List.sublist_append_left [a, m, b] rest).nodup simple.nodup
  apply diagonal.solid
  · exact solid_triangle distinct ear.left
  · exact (solid left).rotate rotated.symm
  · rcases List.exists_mem_of_ne_nil rest long with ⟨y, yMem⟩
    refine ⟨y, yMem, ?_⟩
    have nodup := simple.nodup
    simp only [List.nodup_cons, List.mem_cons, not_or] at nodup
    have outside : ¬InTriangle a m b y := by
      apply ear.empty y (by simp [yMem])
      · rintro rfl
        exact nodup.1.2.2 yMem
      · rintro rfl
        exact nodup.2.1.2 yMem
      · rintro rfl
        exact nodup.2.2.1 yMem
    exact (winding_triangle y).trans (around_eq_zero_of_notInTriangle ear.left outside)
  · refine ⟨m, List.mem_singleton_self m, ?_⟩
    rw [winding_perm (edges_perm rotated)]
    exact seen

open Classical in
theorem exists_highest {a m b : Plane} {rest : List Plane}
    (inner : ∃ v ∈ rest, InTriangle a m b v) :
    ∃ d ∈ rest, InTriangle a m b d ∧
      ∀ v ∈ rest, InTriangle a m b v → area2 b a v ≤ area2 b a d := by
  rcases inner with ⟨v, vMem, inside⟩
  have nonempty : (rest.toFinset.filter (InTriangle a m b)).Nonempty :=
    ⟨v, by simp [vMem, inside]⟩
  rcases Finset.exists_max_image _ (area2 b a) nonempty with ⟨d, dMem, highest⟩
  simp only [Finset.mem_filter, List.mem_toFinset] at dMem highest
  exact ⟨d, dMem.1, dMem.2, fun w wMem wInside => highest w ⟨wMem, wInside⟩⟩

section TopDiagonal

variable {a m b d : Plane} {before after : List Plane}

theorem corner_rotated (a m b d : Plane) (before after : List Plane) :
    (a :: m :: b :: (before ++ d :: after)).IsRotated
      (m :: (b :: before ++ d :: (after ++ [a]))) := by
  simpa using @List.IsRotated.cons_append_singleton _ (m :: b :: (before ++ d :: after)) a

/-- A vertex in the triangle of a corner is on none of its edges. -/
theorem inside_pos (simple : SimplePolygon (a :: m :: b :: (before ++ d :: after)))
    (left : 0 < area2 a m b) (inside : InTriangle a m b d) :
    0 < area2 a m d ∧ 0 < area2 m b d := by
  rcases inside with ⟨am, mb, ba⟩
  have corner : Corner (a :: m :: b :: (before ++ d :: after)) a m b := corner_of_left left
  have dMem : d ∈ a :: m :: b :: (before ++ d :: after) := by simp
  have nodup := simple.nodup
  simp only [List.nodup_cons, List.mem_cons, List.mem_append, not_or] at nodup
  have mba : 0 < area2 m b a := by rwa [area2_rotate]
  constructor
  · refine am.lt_of_ne' fun zero => ?_
    have onInto := mem_segment_of_area2_eq_zero left zero mb ba
    rcases simple.vertex_on_edge dMem corner.into onInto with same | same
    · exact nodup.1.2.2.2.1 same.symm
    · exact nodup.2.1.2.2.1 same.symm
  · refine mb.lt_of_ne' fun zero => ?_
    have onOut := mem_segment_of_area2_eq_zero mba zero ba am
    rcases simple.vertex_on_edge dMem corner.out onOut with same | same
    · exact nodup.2.1.2.2.1 same.symm
    · exact nodup.2.2.1.2.1 same.symm

/-- From the top corner to the highest vertex in its triangle there is a diagonal. -/
theorem top_diagonal (simple : SimplePolygon (a :: m :: b :: (before ++ d :: after)))
    (left : 0 < area2 a m b) (inside : InTriangle a m b d)
    (highest : ∀ v ∈ before ++ d :: after, InTriangle a m b v → area2 b a v ≤ area2 b a d) :
    Diagonal m d (b :: before) (after ++ [a]) where
  simple := simple.rotate (corner_rotated a m b d before after)
  clear z mem := by
    have corner : Corner (a :: m :: b :: (before ++ d :: after)) a m b := corner_of_left left
    rcases inside_pos simple left inside with ⟨am, mb⟩
    rw [← onEdges_perm (edges_perm (corner_rotated a m b d before after))]
    rcases mem with ⟨s, t, sPos, tPos, total, rfl⟩
    have zAm : 0 < area2 a m (s • m + t • d) := by
      rw [area2_combo a m total, area2_right, mul_zero, zero_add]
      exact mul_pos tPos am
    have zMb : 0 < area2 m b (s • m + t • d) := by
      rw [area2_combo m b total, area2_left, mul_zero, zero_add]
      exact mul_pos tPos mb
    have zBa : area2 b a d < area2 b a (s • m + t • d) := by
      have split := area2_split a m b d
      have base : area2 b a m = area2 a m b := by rw [← area2_rotate]
      rw [area2_combo b a total, base]
      obtain rfl : t = 1 - s := by linarith
      nlinarith
    rintro ⟨e, eMem, onE⟩
    rw [edges_corner] at eMem
    rcases List.mem_cons.mp eMem with rfl | eMem
    · exact zAm.ne' (area2_eq_zero_of_mem onE)
    rcases List.mem_cons.mp eMem with rfl | eMem
    · exact zMb.ne' (area2_eq_zero_of_mem onE)
    rcases mem_rest simple.nodup eMem with ⟨eMem, notInto, notOut⟩
    refine zBa.not_ge
      (corner.area2_le simple inside.2.2 ?_ eMem notInto notOut onE ⟨zAm.le, zMb.le⟩)
    intro v vMem vm vAm vMb
    rcases List.mem_cons.mp vMem with rfl | vMem
    · simpa using inside.2.2
    rcases List.mem_cons.mp vMem with rfl | vMem
    · exact (vm rfl).elim
    rcases List.mem_cons.mp vMem with rfl | vMem
    · simpa using inside.2.2
    rcases le_total 0 (area2 b a v) with high | low
    · exact highest v vMem ⟨vAm, vMb, high⟩
    · exact low.trans inside.2.2

/-- The corner at the top holds a vertex: the polygon is split at the highest. -/
theorem solid_of_diagonal (simple : SimplePolygon (a :: m :: b :: (before ++ d :: after)))
    (top : Top (a :: m :: b :: (before ++ d :: after)) m) (left : 0 < area2 a m b)
    (inside : InTriangle a m b d) (diagonal : Diagonal m d (b :: before) (after ++ [a]))
    (solid : TurnsLeft (d :: m :: b :: before) → Solid (d :: m :: b :: before))
    (solid' : TurnsLeft (a :: m :: d :: after) → Solid (a :: m :: d :: after)) :
    Solid (a :: m :: b :: (before ++ d :: after)) := by
  rcases inside_pos simple left inside with ⟨am, mb⟩
  have first : (m :: (b :: before ++ [d])).IsRotated (d :: m :: b :: before) :=
    List.isRotated_concat d (m :: b :: before)
  have second : (d :: (after ++ [a] ++ [m])).IsRotated (a :: m :: d :: after) := by
    simpa using @List.isRotated_append _ (d :: after) [a, m]
  have simple1 := diagonal.simple_side.rotate first
  have simple2 := diagonal.symm.simple_side.rotate second
  have top1 : Top (d :: m :: b :: before) m :=
    ⟨by simp, fun v vMem => top.below v (by simp at vMem ⊢; tauto)⟩
  have top2 : Top (a :: m :: d :: after) m :=
    ⟨by simp, fun v vMem => top.below v (by simp at vMem ⊢; tauto)⟩
  have left1 : 0 < area2 d m b := by rwa [← area2_rotate]
  have turns1 : TurnsLeft (d :: m :: b :: before) := ⟨d, m, b, top1, corner_of_left left1⟩
  have turns2 : TurnsLeft (a :: m :: d :: after) := ⟨a, m, d, top2, corner_of_left am⟩
  have nodup := simple.nodup
  simp only [List.nodup_cons, List.mem_cons, List.mem_append, not_or] at nodup
  refine Solid.rotate ?_ (corner_rotated a m b d before after).symm
  apply diagonal.solid
  · exact (solid turns1).rotate first.symm
  · exact (solid' turns2).rotate second.symm
  · refine ⟨a, by simp, ?_⟩
    rw [winding_perm (edges_perm first)]
    apply winding_eq_zero_of_seen simple1 top1 left1
    · left
      rw [area2_rotate, area2_flip]
      exact neg_neg_of_pos am
    · intro z mem notM onSide
      rw [← onEdges_perm (edges_perm first)] at onSide
      rw [segment_symm] at mem
      have fMem : (a, m) ∈ chain (d :: (after ++ [a] ++ [m])) := by
        have last : (a, m) ∈ chain [a, m] := List.mem_cons_self
        simpa using chain_subset (d :: after) [a, m] [] last
      rcases diagonal.meet_side fMem mem onSide with same | rfl
      · exact notM same
      · exact am.ne' (area2_eq_zero_of_mem mem)
  · refine ⟨b, by simp, ?_⟩
    rw [winding_perm (edges_perm second)]
    apply winding_eq_zero_of_seen simple2 top2 am
    · right
      rw [area2_flip]
      exact neg_neg_of_pos mb
    · intro z mem notM onSide
      rw [← onEdges_perm (edges_perm second)] at onSide
      have fMem : (m, b) ∈ chain (m :: (b :: before ++ [d])) := List.mem_cons_self
      rcases diagonal.symm.meet_side fMem mem onSide with rfl | same
      · exact mb.ne' (area2_eq_zero_of_mem mem)
      · exact notM same

end TopDiagonal

/-- A simple polygon that turns to the left at its top is solid. -/
theorem solid_of_turnsLeft (simple : SimplePolygon path) (long : 3 ≤ path.length)
    (turnsLeft : TurnsLeft path) : Solid path := by
  generalize size : path.length = n
  induction n using Nat.strong_induction_on generalizing path with
  | _ n ih =>
      have shorter {path' : List Plane} (simple' : SimplePolygon path') (long' : 3 ≤ path'.length)
          (lt : path'.length < path.length) (turnsLeft' : TurnsLeft path') : Solid path' :=
        ih path'.length (by omega) simple' long' turnsLeft' rfl
      rcases turnsLeft with ⟨a, m, b, top, corner⟩
      rcases corner.exists_rotated simple.nodup long with ⟨rest, rotated⟩
      refine Solid.rotate ?_ rotated.symm
      have simple' := simple.rotate rotated
      have left := corner.left
      have top' : Top (a :: m :: b :: rest) m :=
        ⟨by simp, fun v vMem => top.below v (rotated.mem_iff.mpr vMem)⟩
      have sameLength := rotated.perm.length_eq
      by_cases inner : ∃ v ∈ rest, InTriangle a m b v
      · rcases exists_highest inner with ⟨d, dMem, inside, highest⟩
        rcases List.append_of_mem dMem with ⟨before, after, rfl⟩
        have diagonal := top_diagonal simple' left inside highest
        apply solid_of_diagonal simple' top' left inside diagonal
        · apply shorter
          · exact diagonal.simple_side.rotate (List.isRotated_concat d (m :: b :: before))
          · simp
          · simp only [List.length_cons, List.length_append] at sameLength ⊢
            omega
        · apply shorter
          · refine diagonal.symm.simple_side.rotate ?_
            simpa using @List.isRotated_append _ (d :: after) [a, m]
          · simp
          · simp only [List.length_cons, List.length_append] at sameLength ⊢
            omega
      · have ear : Ear (a :: m :: b :: rest) a m b :=
          { corner_of_left left with
            empty := by
              intro v vMem va vm vb inside
              simp only [List.mem_cons, va, vm, vb, false_or] at vMem
              exact inner ⟨v, vMem, inside⟩ }
        rcases eq_or_ne rest [] with rfl | more
        · exact solid_triangle simple'.nodup left
        have positive := List.length_pos_iff.mpr more
        have clipped := simple_clipped simple' ear more
        simp only [List.length_cons] at sameLength
        apply solid_of_ear simple' top' ear more
        · apply shorter clipped
          · simp only [List.length_cons]
            omega
          · simp only [List.length_cons]
            omega
        · apply shorter clipped.reverse
          · simp only [List.length_reverse, List.length_cons]
            omega
          · simp only [List.length_reverse, List.length_cons]
            omega

/-- The polygons of positive area are the ones that turn to the left. -/
theorem solid_of_area_pos (simple : SimplePolygon path) (long : 3 ≤ path.length)
    (positive : 0 < shoelace (edges path)) : Solid path := by
  rcases turnsLeft_or_reverse simple long with left | reversed
  · exact solid_of_turnsLeft simple long left
  · have long' : 3 ≤ path.reverse.length := by rwa [List.length_reverse]
    have area := (solid_of_turnsLeft simple.reverse long' reversed).area
    rw [shoelace_perm (edges_reverse_perm path), shoelace_swap] at area
    linarith

theorem exists_ear (simple : SimplePolygon path) (long : 3 ≤ path.length)
    (positive : 0 < shoelace (edges path)) : ∃ a m b, Ear path a m b := by
  have nonempty : path ≠ [] := by
    rintro rfl
    simp at long
  rcases List.exists_mem_of_ne_nil path nonempty with ⟨p, pMem⟩
  rcases exists_edge_from pMem with ⟨q, mem⟩
  rcases (solid_of_area_pos simple long positive).ear (p, q) mem with ⟨a, m, b, ear, -⟩
  exact ⟨a, m, b, ear⟩

/-- Clipping an ear leaves a simple polygon of positive area. -/
theorem clip_ear {a m b : Plane} {rest : List Plane}
    (simple : SimplePolygon (a :: m :: b :: rest)) (ear : Ear (a :: m :: b :: rest) a m b)
    (long : rest ≠ []) (positive : 0 < shoelace (edges (a :: m :: b :: rest))) :
    SimplePolygon (a :: b :: rest) ∧ 0 < shoelace (edges (a :: b :: rest)) := by
  have clipped := simple_clipped simple ear long
  have more := List.length_pos_iff.mpr long
  have long' : 3 ≤ (a :: b :: rest).length := by
    simp only [List.length_cons]
    omega
  have solid := solid_of_area_pos simple (by simp) positive
  rcases exists_across_base simple ear long with ⟨z, off, across⟩
  rw [solid.winding_clipped simple ear, zero_add] at across
  have reversed : TurnsLeft (a :: b :: rest).reverse → Solid (a :: b :: rest).reverse :=
    solid_of_turnsLeft clipped.reverse (by rwa [List.length_reverse])
  have left := turnsLeft_of_winding clipped long' reversed off across
  exact ⟨clipped, (solid_of_turnsLeft clipped long' left).area⟩

end Induction

end MrsOptimization
