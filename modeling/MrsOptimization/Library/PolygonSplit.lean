import MrsOptimization.Library.Polygon

/-!
# Splitting a polygon along a diagonal

A diagonal `p d` that avoids the edges of a simple polygon splits it into the polygons
of its two sides. Both are simple, winding numbers and areas add up, and the polygon of
one side has one winding number along the whole other side.
-/

namespace MrsOptimization

open Plane

/-- A diagonal of the polygon through `p`, `xs`, `d` and `ys`. -/
structure Diagonal (p d : Plane) (xs ys : List Plane) : Prop where
  simple : SimplePolygon (p :: (xs ++ d :: ys))
  clear : ∀ z ∈ openSegment ℝ p d, ¬OnEdges (edges (p :: (xs ++ d :: ys))) z

section Side

variable {p d : Plane} {xs ys : List Plane} {e : Edge}

theorem fst_mem_side (mem : e ∈ chain (p :: (xs ++ [d]))) : e.1 ∈ p :: xs := by
  have image := List.mem_map_of_mem (f := Prod.fst) mem
  rwa [← List.cons_append, map_fst_chain] at image

theorem snd_mem_side (mem : e ∈ chain (p :: (xs ++ [d]))) : e.2 ∈ xs ++ [d] := by
  have image := List.mem_map_of_mem (f := Prod.snd) mem
  rwa [map_snd_chain] at image

theorem edges_side (p d : Plane) (xs : List Plane) :
    edges (p :: (xs ++ [d])) = chain (p :: (xs ++ [d])) ++ [(d, p)] :=
  edges_split p d xs []

theorem mem_edges_side :
    e ∈ edges (p :: (xs ++ [d])) ↔ e ∈ chain (p :: (xs ++ [d])) ∨ e = (d, p) := by
  simp [edges_side]

theorem mem_edges_split :
    e ∈ edges (p :: (xs ++ d :: ys)) ↔
      e ∈ chain (p :: (xs ++ [d])) ∨ e ∈ chain (d :: (ys ++ [p])) := by
  simp [edges_split]

theorem winding_split (p d : Plane) (xs ys : List Plane) (q : Plane) :
    winding (edges (p :: (xs ++ d :: ys))) q =
      winding (edges (p :: (xs ++ [d]))) q + winding (edges (d :: (ys ++ [p]))) q := by
  simp only [edges_split p d xs ys, edges_side, winding_append, winding_cons, winding_nil,
    crossing_swap (p - q) (d - q)]
  ring

theorem shoelace_split (p d : Plane) (xs ys : List Plane) :
    shoelace (edges (p :: (xs ++ d :: ys))) =
      shoelace (edges (p :: (xs ++ [d]))) + shoelace (edges (d :: (ys ++ [p]))) := by
  simp only [edges_split p d xs ys, edges_side, shoelace_append, shoelace_cons, shoelace_nil,
    cross_swap p d]
  ring

theorem exists_edge_to_side {x : Plane} (xMem : x ∈ xs) :
    ∃ e ∈ chain (p :: (xs ++ [d])), e.2 = x := by
  have image : x ∈ (chain (p :: (xs ++ [d]))).map Prod.snd := by
    rw [map_snd_chain]
    exact List.mem_append_left _ xMem
  exact List.mem_map.mp image

end Side

namespace Diagonal

variable {p d : Plane} {xs ys : List Plane}

theorem rotated (p d : Plane) (xs ys : List Plane) :
    (p :: (xs ++ d :: ys)).IsRotated (d :: (ys ++ p :: xs)) := by
  simpa using @List.isRotated_append _ (p :: xs) (d :: ys)

theorem symm (diagonal : Diagonal p d xs ys) : Diagonal d p ys xs where
  simple := diagonal.simple.rotate (rotated p d xs ys)
  clear z mem := by
    rw [openSegment_symm] at mem
    rw [← onEdges_perm (edges_perm (rotated p d xs ys))]
    exact diagonal.clear z mem

theorem notMem (diagonal : Diagonal p d xs ys) :
    p ≠ d ∧ p ∉ xs ∧ p ∉ ys ∧ d ∉ xs ∧ d ∉ ys ∧ ∀ x ∈ xs, x ∉ ys := by
  have nodup := diagonal.simple.nodup
  simp only [List.nodup_cons, List.mem_append, List.mem_cons, not_or, List.nodup_append] at nodup
  rcases nodup with ⟨⟨pxs, pd, pys⟩, -, ⟨dys, -⟩, apart⟩
  refine ⟨pd, pxs, pys, fun dxs => ?_, dys, fun x xMem yMem => ?_⟩
  · exact apart d dxs d (.inl rfl) rfl
  · exact apart x xMem x (.inr yMem) rfl

/-- The two sides meet only at the ends of the diagonal. -/
theorem meet_sides (diagonal : Diagonal p d xs ys) {e f : Edge} {z : Plane}
    (eMem : e ∈ chain (p :: (xs ++ [d]))) (fMem : f ∈ chain (d :: (ys ++ [p])))
    (onE : z ∈ segment ℝ e.1 e.2) (onF : z ∈ segment ℝ f.1 f.2) :
    z = p ∨ z = d := by
  rcases diagonal.notMem with ⟨pd, pxs, pys, dxs, dys, apart⟩
  have e1 := fst_mem_side eMem
  have e2 := snd_mem_side eMem
  have f1 := fst_mem_side fMem
  have f2 := snd_mem_side fMem
  simp only [List.mem_cons, List.mem_append, List.not_mem_nil, or_false] at e1 e2 f1 f2
  have distinct : e ≠ f := by
    rintro rfl
    rcases e1 with e1 | e1 <;> rcases f1 with f1 | f1
    · exact pd (e1.symm.trans f1)
    · exact pys (e1 ▸ f1)
    · exact dxs (f1 ▸ e1)
    · exact apart _ e1 f1
  rcases diagonal.simple.meet e (mem_edges_split.mpr (.inl eMem)) f
      (mem_edges_split.mpr (.inr fMem)) distinct z onE onF with ⟨atE, atF⟩ | ⟨atE, atF⟩
  · right
    have shared : e.2 = f.1 := atE.symm.trans atF
    rcases f1 with f1 | f1
    · exact atF.trans f1
    · rcases e2 with e2 | e2
      · exact (apart _ e2 (shared ▸ f1)).elim
      · exact (dys (e2 ▸ shared ▸ f1)).elim
  · left
    have shared : e.1 = f.2 := atE.symm.trans atF
    rcases e1 with e1 | e1
    · exact atE.trans e1
    · rcases f2 with f2 | f2
      · exact (apart _ e1 (shared ▸ f2)).elim
      · exact (pxs (f2 ▸ shared ▸ e1)).elim

/-- A point of the polygon on the diagonal is one of its ends. -/
theorem end_of_mem (diagonal : Diagonal p d xs ys) {z : Plane}
    (onEdges : OnEdges (edges (p :: (xs ++ d :: ys))) z) (mem : z ∈ segment ℝ p d) :
    z = p ∨ z = d := by
  rw [← insert_endpoints_openSegment] at mem
  rcases mem with rfl | rfl | inner
  · exact .inl rfl
  · exact .inr rfl
  · exact (diagonal.clear z inner onEdges).elim

theorem simple_side (diagonal : Diagonal p d xs ys) : SimplePolygon (p :: (xs ++ [d])) where
  nodup := by
    have nodup := diagonal.simple.nodup
    rw [← List.cons_append] at nodup
    have sublist : (p :: (xs ++ [d])).Sublist ((p :: xs) ++ d :: ys) := by
      rw [← List.cons_append]
      exact List.Sublist.append_left (List.singleton_sublist.mpr List.mem_cons_self) (p :: xs)
    exact sublist.nodup nodup
  meet e eMem f fMem distinct z onE onF := by
    rcases diagonal.notMem with ⟨pd, pxs, pys, dxs, dys, apart⟩
    -- where an edge of the side meets the diagonal
    have atDiagonal : ∀ e ∈ chain (p :: (xs ++ [d])), z ∈ segment ℝ e.1 e.2 →
        z ∈ segment ℝ d p → z = p ∧ e.1 = p ∨ z = d ∧ e.2 = d := by
      intro e eMem onE onDiagonal
      have eMem' : e ∈ edges (p :: (xs ++ d :: ys)) := mem_edges_split.mpr (.inl eMem)
      rw [segment_symm] at onDiagonal
      rcases diagonal.end_of_mem ⟨e, eMem', onE⟩ onDiagonal with rfl | rfl
      · rcases diagonal.simple.vertex_on_edge List.mem_cons_self eMem' onE with same | same
        · exact .inl ⟨rfl, same.symm⟩
        · have mem := snd_mem_side eMem
          rw [← same] at mem
          simp [pd, pxs] at mem
      · have dMem : z ∈ p :: (xs ++ z :: ys) := by simp
        rcases diagonal.simple.vertex_on_edge dMem eMem' onE with same | same
        · have mem := fst_mem_side eMem
          rw [← same] at mem
          simp [pd.symm, dxs] at mem
        · exact .inr ⟨rfl, same.symm⟩
    rcases mem_edges_side.mp eMem with eMem | rfl <;> rcases mem_edges_side.mp fMem with fMem | rfl
    · exact diagonal.simple.meet e (mem_edges_split.mpr (.inl eMem)) f
        (mem_edges_split.mpr (.inl fMem)) distinct z onE onF
    · rcases atDiagonal e eMem onE onF with ⟨same, same'⟩ | ⟨same, same'⟩
      · exact .inr ⟨same.trans same'.symm, same⟩
      · exact .inl ⟨same.trans same'.symm, same⟩
    · rcases atDiagonal f fMem onF onE with ⟨same, same'⟩ | ⟨same, same'⟩
      · exact .inl ⟨same, same.trans same'.symm⟩
      · exact .inr ⟨same, same.trans same'.symm⟩
    · exact (distinct rfl).elim

/-- The polygon of one side and the other side meet only at the ends of the diagonal. -/
theorem meet_side (diagonal : Diagonal p d xs ys) {f : Edge} {z : Plane}
    (fMem : f ∈ chain (d :: (ys ++ [p]))) (onF : z ∈ segment ℝ f.1 f.2)
    (onSide : OnEdges (edges (p :: (xs ++ [d]))) z) : z = p ∨ z = d := by
  rcases onSide with ⟨e, eMem, onE⟩
  rcases mem_edges_side.mp eMem with eMem | rfl
  · exact diagonal.meet_sides eMem fMem onE onF
  · rw [segment_symm] at onE
    exact diagonal.end_of_mem ⟨f, mem_edges_split.mpr (.inr fMem), onF⟩ onE

theorem off_side (diagonal : Diagonal p d xs ys) {y : Plane} (yMem : y ∈ ys) :
    ¬OnEdges (edges (p :: (xs ++ [d]))) y := by
  intro onSide
  rcases diagonal.notMem with ⟨-, -, pys, -, dys, -⟩
  rcases exists_edge_to_side (p := d) (d := p) yMem with ⟨f, fMem, rfl⟩
  rcases diagonal.meet_side fMem (right_mem_segment ℝ f.1 f.2) onSide with same | same
  · exact pys (same ▸ yMem)
  · exact dys (same ▸ yMem)

/-- Along the other side the winding number of the polygon of one side does not change. -/
theorem winding_eq_of_avoids (diagonal : Diagonal p d xs ys) {f : Edge} {z z' : Plane}
    (fMem : f ∈ chain (d :: (ys ++ [p]))) (onF : z ∈ segment ℝ f.1 f.2)
    (onF' : z' ∈ segment ℝ f.1 f.2) (notP : p ∉ segment ℝ z z') (notD : d ∉ segment ℝ z z') :
    winding (edges (p :: (xs ++ [d]))) z = winding (edges (p :: (xs ++ [d]))) z' := by
  apply winding_eq_of_segment (closed_edges _)
  intro w mem onSide
  have onEdge := (convex_segment f.1 f.2).segment_subset onF onF' mem
  rcases diagonal.meet_side fMem onEdge onSide with rfl | rfl
  · exact notP mem
  · exact notD mem

theorem winding_eq_of_mem (diagonal : Diagonal p d xs ys) {y y' : Plane} (yMem : y ∈ ys)
    (yMem' : y' ∈ ys) :
    winding (edges (p :: (xs ++ [d]))) y = winding (edges (p :: (xs ++ [d]))) y' := by
  refine eq_of_chain (winding (edges (p :: (xs ++ [d])))) (fun e eMem => ?_) yMem yMem'
  rcases diagonal.notMem with ⟨-, -, pys, -, dys, -⟩
  rcases mem_of_mem_chain eMem with ⟨mem, mem'⟩
  have eMem' : e ∈ chain (d :: (ys ++ [p])) := chain_subset [d] ys [p] eMem
  have eMem'' : e ∈ edges (p :: (xs ++ d :: ys)) := mem_edges_split.mpr (.inr eMem')
  apply diagonal.winding_eq_of_avoids eMem' (left_mem_segment ℝ _ _) (right_mem_segment ℝ _ _)
  · intro onEdge
    rcases diagonal.simple.vertex_on_edge (by simp) eMem'' onEdge with rfl | rfl
    · exact pys mem
    · exact pys mem'
  · intro onEdge
    rcases diagonal.simple.vertex_on_edge (by simp) eMem'' onEdge with rfl | rfl
    · exact dys mem
    · exact dys mem'

/-- Every point of the other side, its ends apart, has the winding number of a vertex. -/
theorem winding_eq_vertex (diagonal : Diagonal p d xs ys) {f : Edge} {z : Plane}
    (fMem : f ∈ chain (d :: (ys ++ [p]))) (onF : z ∈ segment ℝ f.1 f.2) (notP : z ≠ p)
    (notD : z ≠ d) : ∃ y ∈ ys,
      winding (edges (p :: (xs ++ [d]))) z = winding (edges (p :: (xs ++ [d]))) y := by
  rcases diagonal.notMem with ⟨-, -, pys, -, dys, -⟩
  have fMem' : f ∈ edges (p :: (xs ++ d :: ys)) := mem_edges_split.mpr (.inr fMem)
  have towards {y : Plane} (yEnd : y = f.1 ∨ y = f.2) (yMem : y ∈ ys) :
      winding (edges (p :: (xs ++ [d]))) z = winding (edges (p :: (xs ++ [d]))) y := by
    have onF' : y ∈ segment ℝ f.1 f.2 := by
      rcases yEnd with rfl | rfl
      · exact left_mem_segment ℝ _ _
      · exact right_mem_segment ℝ _ _
    apply diagonal.winding_eq_of_avoids fMem onF onF'
    · refine diagonal.simple.notMem_segment_end fMem' onF yEnd (by simp) ?_ notP
      rintro rfl
      exact pys yMem
    · refine diagonal.simple.notMem_segment_end fMem' onF yEnd (by simp) ?_ notD
      rintro rfl
      exact dys yMem
  have f1 := fst_mem_side fMem
  have f2 := snd_mem_side fMem
  simp only [List.mem_cons, List.mem_append, List.not_mem_nil, or_false] at f1 f2
  rcases f1 with f1 | f1
  · rcases f2 with f2 | f2
    · exact ⟨f.2, f2, towards (.inr rfl) f2⟩
    · have onDiagonal : z ∈ segment ℝ p d := by
        rwa [f1, f2, segment_symm] at onF
      rcases diagonal.end_of_mem ⟨f, fMem', onF⟩ onDiagonal with same | same
      · exact (notP same).elim
      · exact (notD same).elim
  · exact ⟨f.1, f1, towards (.inl rfl) f1⟩

/-- If one vertex of the other side has winding number zero, the whole other side has. -/
theorem winding_eq_zero (diagonal : Diagonal p d xs ys)
    (vertex : ∃ y ∈ ys, winding (edges (p :: (xs ++ [d]))) y = 0) {f : Edge} {z : Plane}
    (fMem : f ∈ chain (d :: (ys ++ [p]))) (onF : z ∈ segment ℝ f.1 f.2) (notP : z ≠ p)
    (notD : z ≠ d) :
    ¬OnEdges (edges (p :: (xs ++ [d]))) z ∧ winding (edges (p :: (xs ++ [d]))) z = 0 := by
  refine ⟨fun onSide => ?_, ?_⟩
  · rcases diagonal.meet_side fMem onF onSide with same | same
    · exact notP same
    · exact notD same
  · rcases vertex with ⟨y, yMem, zero⟩
    rcases diagonal.winding_eq_vertex fMem onF notP notD with ⟨y', yMem', same⟩
    rw [same, diagonal.winding_eq_of_mem yMem' yMem, zero]

end Diagonal

end MrsOptimization
