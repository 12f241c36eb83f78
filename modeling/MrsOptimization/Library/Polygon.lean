import MrsOptimization.Library.Cycles
import MrsOptimization.Library.Plane
import Mathlib.Algebra.BigOperators.Group.Multiset.Basic
import Mathlib.Analysis.Convex.PathConnected
import Mathlib.Analysis.Normed.Module.Convex

/-!
# Polygons and winding numbers

The winding number of a closed list of edges is the sum of the signed crossings of a
ray. It does not change along a segment that avoids the edges. A polygon is simple when
its vertices are different and its edges meet only at the vertices they share; a
diagonal that avoids the edges splits it into two simple polygons.
-/

namespace MrsOptimization

open Plane Filter Topology

abbrev Edge := Plane × Plane

def OnEdges (es : List Edge) (z : Plane) : Prop := ∃ e ∈ es, z ∈ segment ℝ e.1 e.2

/-- How often the edges turn to the left around `q`. -/
noncomputable def winding (es : List Edge) (q : Plane) : ℤ :=
  (es.map fun e => crossing (e.1 - q) (e.2 - q)).sum

/-- Twice the signed area inside the edges. -/
def shoelace (es : List Edge) : ℝ := (es.map fun e => cross e.1 e.2).sum

section EdgeLists

variable {es es' : List Edge} {q q' : Plane}

@[simp] theorem winding_cons (e : Edge) (es : List Edge) (q : Plane) :
    winding (e :: es) q = crossing (e.1 - q) (e.2 - q) + winding es q := by
  simp [winding]

@[simp] theorem winding_nil (q : Plane) : winding [] q = 0 := rfl

@[simp] theorem winding_append (es es' : List Edge) (q : Plane) :
    winding (es ++ es') q = winding es q + winding es' q := by
  simp [winding]

@[simp] theorem shoelace_cons (e : Edge) (es : List Edge) :
    shoelace (e :: es) = cross e.1 e.2 + shoelace es := by
  simp [shoelace]

@[simp] theorem shoelace_nil : shoelace [] = 0 := rfl

@[simp] theorem shoelace_append (es es' : List Edge) :
    shoelace (es ++ es') = shoelace es + shoelace es' := by
  simp [shoelace]

theorem winding_perm (perm : es.Perm es') (q : Plane) : winding es q = winding es' q :=
  (perm.map _).sum_eq

theorem shoelace_perm (perm : es.Perm es') : shoelace es = shoelace es' :=
  (perm.map _).sum_eq

theorem onEdges_perm (perm : es.Perm es') {z : Plane} : OnEdges es z ↔ OnEdges es' z := by
  simp only [OnEdges, perm.mem_iff]

theorem winding_swap (es : List Edge) (q : Plane) :
    winding (es.map Prod.swap) q = -winding es q := by
  induction es with
  | nil => rfl
  | cons e es ih =>
      simp only [List.map_cons, winding_cons, ih, Prod.fst_swap, Prod.snd_swap,
        crossing_swap (e.1 - q) (e.2 - q)]
      ring

theorem shoelace_swap (es : List Edge) : shoelace (es.map Prod.swap) = -shoelace es := by
  induction es with
  | nil => simp
  | cons e es ih =>
      simp only [List.map_cons, shoelace_cons, ih, Prod.fst_swap, Prod.snd_swap,
        cross_swap e.1 e.2]
      ring

theorem onEdges_swap {z : Plane} : OnEdges (es.map Prod.swap) z ↔ OnEdges es z := by
  constructor
  · rintro ⟨_, mem, onEdge⟩
    rcases List.mem_map.mp mem with ⟨e, eMem, rfl⟩
    exact ⟨e, eMem, segment_symm ℝ e.1 e.2 ▸ onEdge⟩
  · rintro ⟨e, eMem, onEdge⟩
    exact ⟨e.swap, List.mem_map_of_mem eMem, segment_symm ℝ e.1 e.2 ▸ onEdge⟩

theorem sum_map_sub (es : List Edge) (f g : Edge → ℤ) :
    (es.map fun e => f e - g e).sum = (es.map f).sum - (es.map g).sum := by
  simpa using @Multiset.sum_map_sub _ _ _ (es : Multiset Edge) f g

/-- Every vertex is left as often as it is reached. -/
def Closed (es : List Edge) : Prop := (es.map Prod.fst).Perm (es.map Prod.snd)

theorem closed_edges (path : List Plane) : Closed (edges path) := by
  rw [Closed, map_fst_edges]
  exact (map_snd_edges_perm path).symm

theorem Closed.sum_sub (closed : Closed es) (f : Plane → ℤ) :
    (es.map fun e => f e.1 - f e.2).sum = 0 := by
  have same := (closed.map f).sum_eq
  rw [List.map_map, List.map_map] at same
  rw [sum_map_sub es (fun e => f e.1) fun e => f e.2]
  exact sub_eq_zero.mpr same

/-- The winding number is the same at both ends of a segment that avoids the edges. -/
theorem winding_eq_of_segment (closed : Closed es)
    (off : ∀ z ∈ segment ℝ q q', ¬OnEdges es z) : winding es q = winding es q' := by
  have telescoped := closed.sum_sub fun a => crossing (a - q) (a - q')
  rw [← sub_eq_zero, ← telescoped, winding, winding, ← sum_map_sub]
  congr 1
  apply List.map_congr_left
  intro e eMem
  apply crossing_sub_crossing
  intro z onEdge onSegment
  exact off z onSegment ⟨e, eMem, onEdge⟩

theorem winding_eq_zero_of_below (below : ∀ e ∈ es, e.1.2 ≤ q.2 ∧ e.2.2 ≤ q.2) :
    winding es q = 0 := by
  apply List.sum_eq_zero
  intro term termMem
  rcases List.mem_map.mp termMem with ⟨e, eMem, rfl⟩
  apply crossing_lower
  · simpa using (below e eMem).1
  · simpa using (below e eMem).2

theorem winding_eq_zero_of_above (above : ∀ e ∈ es, q.2 < e.1.2 ∧ q.2 < e.2.2) :
    winding es q = 0 := by
  apply List.sum_eq_zero
  intro term termMem
  rcases List.mem_map.mp termMem with ⟨e, eMem, rfl⟩
  apply crossing_upper
  · simpa using (above e eMem).1
  · simpa using (above e eMem).2

theorem isClosed_onEdges (es : List Edge) : IsClosed {z | OnEdges es z} := by
  have union : {z | OnEdges es z} = ⋃ e ∈ {e | e ∈ es}, segment ℝ e.1 e.2 := by
    ext z
    simp [OnEdges]
  rw [union]
  apply (List.finite_toSet es).isClosed_biUnion
  intro e _
  rw [segment_eq_image_lineMap]
  exact (isCompact_Icc.image AffineMap.lineMap_continuous).isClosed

/-- Off the edges the winding number is locally constant. -/
theorem eventually_winding_eq (closed : Closed es) (off : ¬OnEdges es q) :
    ∀ᶠ z in 𝓝 q, ¬OnEdges es z ∧ winding es z = winding es q := by
  rcases Metric.isOpen_iff.mp (isClosed_onEdges es).isOpen_compl q off with ⟨ε, positive, ball⟩
  filter_upwards [Metric.ball_mem_nhds q positive] with z near
  refine ⟨ball near, (winding_eq_of_segment closed fun z' onSegment => ?_).symm⟩
  exact ball ((convex_ball q ε).segment_subset (Metric.mem_ball_self positive) near onSegment)

/-- A point off the edges can be moved a little in both directions of a line. -/
theorem exists_push (closed : Closed es) (off : ¬OnEdges es q) (d : Plane) :
    ∃ δ > 0, ∀ s : ℝ, |s| ≤ δ →
      ¬OnEdges es (q + s • d) ∧ winding es (q + s • d) = winding es q := by
  have continuous : Tendsto (fun s : ℝ => q + s • d) (𝓝 0) (𝓝 q) := by
    have line : Continuous fun s : ℝ => q + s • d := by fun_prop
    simpa using line.tendsto 0
  rcases Metric.eventually_nhds_iff.mp (continuous.eventually (eventually_winding_eq closed off))
    with ⟨ε, positive, near⟩
  refine ⟨ε / 2, by positivity, fun s small => near ?_⟩
  rw [Real.dist_eq, sub_zero]
  linarith

end EdgeLists

/-- The vertices are different and the edges meet only where they share an end. -/
structure SimplePolygon (path : List Plane) : Prop where
  nodup : path.Nodup
  meet : ∀ e ∈ edges path, ∀ f ∈ edges path, e ≠ f →
    ∀ z ∈ segment ℝ e.1 e.2, z ∈ segment ℝ f.1 f.2 → z = e.2 ∧ z = f.1 ∨ z = e.1 ∧ z = f.2

namespace SimplePolygon

variable {path path' : List Plane} {e f : Edge}

theorem rotate (simple : SimplePolygon path) (rotated : path.IsRotated path') :
    SimplePolygon path' where
  nodup := rotated.nodup_iff.mp simple.nodup
  meet e eMem f fMem := by
    have perm := edges_perm rotated
    exact simple.meet e (perm.mem_iff.mpr eMem) f (perm.mem_iff.mpr fMem)

theorem reverse (simple : SimplePolygon path) : SimplePolygon path.reverse where
  nodup := List.nodup_reverse.mpr simple.nodup
  meet e eMem f fMem distinct z onE onF := by
    have perm := edges_reverse_perm path
    rcases List.mem_map.mp (perm.mem_iff.mp eMem) with ⟨e', eMem', rfl⟩
    rcases List.mem_map.mp (perm.mem_iff.mp fMem) with ⟨f', fMem', rfl⟩
    have distinct' : e' ≠ f' := fun same => distinct (same ▸ rfl)
    simp only [Prod.fst_swap, Prod.snd_swap] at onE onF ⊢
    rw [segment_symm] at onE onF
    exact (simple.meet e' eMem' f' fMem' distinct' z onE onF).symm

/-- A vertex on an edge is one of its ends. -/
theorem vertex_on_edge (simple : SimplePolygon path) {v : Plane} (vMem : v ∈ path)
    (eMem : e ∈ edges path) (onEdge : v ∈ segment ℝ e.1 e.2) : v = e.1 ∨ v = e.2 := by
  rcases exists_edge_from vMem with ⟨w, fMem⟩
  rcases eq_or_ne e (v, w) with rfl | distinct
  · exact .inl rfl
  · rcases simple.meet e eMem (v, w) fMem distinct v onEdge (left_mem_segment ℝ v w) with
      ⟨same, _⟩ | ⟨same, _⟩
    · exact .inr same
    · exact .inl same

/-- Between a point of an edge and one of its ends there is no other vertex. -/
theorem notMem_segment_end (simple : SimplePolygon path) (fMem : f ∈ edges path)
    {v w z : Plane} (onF : z ∈ segment ℝ f.1 f.2)
    (wEnd : w = f.1 ∨ w = f.2) (vMem : v ∈ path) (vw : v ≠ w) (zv : z ≠ v) :
    v ∉ segment ℝ z w := by
  intro between
  have wOn : w ∈ segment ℝ f.1 f.2 := by
    rcases wEnd with rfl | rfl
    · exact left_mem_segment ℝ _ _
    · exact right_mem_segment ℝ _ _
  have vOn := (convex_segment f.1 f.2).segment_subset onF wOn between
  rcases simple.vertex_on_edge vMem fMem vOn with rfl | rfl <;> rcases wEnd with rfl | rfl
  · exact vw rfl
  · rw [segment_symm] at onF
    exact zv (eq_of_mem_segments onF between)
  · exact zv (eq_of_mem_segments onF between)
  · exact vw rfl

end SimplePolygon

end MrsOptimization
