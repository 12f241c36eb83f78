import MrsOptimization.Navigation.EarTest

/-!
# The area of the clipped triangles

Whatever polygon the loop of `triangulate` works on, also one that meets itself, each
clipped vertex has no twin at its place among the remaining points: a twin would lie in
the tested triangle. So the removal by coordinates takes away the tested vertex, and the
signed area of the path is that of the clipped triangles and of the triangle that is left.
-/

namespace MrsOptimization.Navigation.NavigationGraphBuilder

/-- A round that clips: the state it finds and the three points it looks at. -/
structure Clip where
  found : Clipping
  prev : MyPoint
  curr : MyPoint
  next : MyPoint

/-- Twice the area of the clipped triangle. -/
def Clip.area (clip : Clip) : ℤ := turn clip.prev clip.curr clip.next

/-- The rounds of the loop that clip, from a state to the end. -/
inductive ClippingRun : Clipping → List Clip → Clipping → Prop where
  | finish {clipping : Clipping} (few : ¬3 < clipping.workPoints.length) :
      ClippingRun clipping [] clipping
  | pass {clipping next final : Clipping} {clips : List Clip}
      (more : 3 < clipping.workPoints.length) (stepped : clippingStep id clipping = some next)
      (kept : next.workPoints = clipping.workPoints ∧ next.lines = clipping.lines)
      (later : ClippingRun next clips final) : ClippingRun clipping clips final
  | clip {clipping next final : Clipping} {clips : List Clip} {prev curr after : MyPoint}
      (more : 3 < clipping.workPoints.length) (stepped : clippingStep id clipping = some next)
      (atCurr : CircularArrayList.get clipping.workPoints clipping.index = some curr)
      (atPrev : CircularArrayList.get clipping.workPoints (clipping.index - 1) = some prev)
      (atNext : CircularArrayList.get clipping.workPoints (clipping.index + 1) = some after)
      (removed : next.workPoints = CircularArrayList.remove clipping.workPoints curr)
      (added : next.lines = clipping.lines ++ [(prev, after)])
      (later : ClippingRun next clips final) :
      ClippingRun clipping (⟨clipping, prev, curr, after⟩ :: clips) final

/-- The clipped triangle turns to the left, none of the other remaining points is inside, and
exactly the tested point is removed. -/
structure Clip.Proper (clip : Clip) : Prop where
  positive : 0 < clip.area
  empty : ∀ p ∈ clip.found.workPoints, p.id ≠ clip.prev.id → p.id ≠ clip.curr.id →
    p.id ≠ clip.next.id → isInsideTriangle id clip.curr clip.prev clip.next p = false
  removed : CircularArrayList.remove clip.found.workPoints clip.curr =
    clip.found.workPoints.eraseIdx
      (clip.found.index % clip.found.workPoints.length).toNat

section Clips

variable {points : List MyPoint} {prev curr next : MyPoint} {rest : List MyPoint}

theorem doubledArea_triangle (prev curr next : MyPoint) :
    doubledArea [prev, curr, next] = turn prev curr next := by
  simp only [doubledArea, edges, chain, turn, List.cons_append, List.nil_append, List.map_cons,
    List.map_nil, List.sum_cons, List.sum_nil]
  ring

/-- A point at the place of the tested vertex is in the tested triangle. -/
theorem isInsideTriangle_twin {twin : MyPoint} (sameX : twin.x = curr.x)
    (sameY : twin.y = curr.y) : isInsideTriangle id curr prev next twin = true := by
  have first : (curr.x - twin.x) * (prev.y - curr.y) - (prev.x - curr.x) * (curr.y - twin.y) =
      0 := by
    rw [sameX, sameY]
    ring
  have third : (next.x - twin.x) * (curr.y - next.y) - (curr.x - next.x) * (next.y - twin.y) =
      0 := by
    rw [sameX, sameY]
    ring
  simp only [isInsideTriangle, first, third, id_eq, le_refl, true_and, and_true,
    decide_eq_true_eq]
  exact le_total _ _

/-- A vertex with a twin is never clipped. -/
theorem eq_of_twin (ids : (points.map MyPoint.id).Nodup) (prevMem : prev ∈ points)
    (currMem : curr ∈ points) (nextMem : next ∈ points) (left : 0 < turn prev curr next)
    (ear : isEar id points curr prev next = true) {twin : MyPoint} (twinMem : twin ∈ points)
    (sameX : twin.x = curr.x) (sameY : twin.y = curr.y) : twin = curr := by
  by_contra different
  have apart {p : MyPoint} (pMem : p ∈ points) (other : twin ≠ p) : twin.id ≠ p.id :=
    fun same => other (List.inj_on_of_nodup_map ids twinMem pMem same)
  have notPrev : twin ≠ prev := by
    rintro rfl
    simp [turn, sameX, sameY] at left
  have notNext : twin ≠ next := by
    rintro rfl
    simp [turn, sameX, sameY] at left
    linarith [mul_comm (curr.x - prev.x) (curr.y - prev.y)]
  have outside := List.all_eq_true.mp ear twin twinMem
  simp [apart prevMem notPrev, apart currMem different, apart nextMem notNext,
    isInsideTriangle_twin sameX sameY] at outside

end Clips

section Run

variable {clipping following final : Clipping} {clips : List Clip} {prev curr next : MyPoint}

/-- A round tests the corner at the index, and clips it or not. -/
theorem clippingStep_tests (three : 3 ≤ clipping.workPoints.length)
    (stepped : clippingStep id clipping = some following) :
    ∃ prev curr next rest, clipping.workPoints.IsRotated (prev :: curr :: next :: rest) ∧
      CircularArrayList.get clipping.workPoints clipping.index = some curr ∧
      CircularArrayList.get clipping.workPoints (clipping.index - 1) = some prev ∧
      CircularArrayList.get clipping.workPoints (clipping.index + 1) = some next ∧
      (0 < turn prev curr next ∧ isEar id clipping.workPoints curr prev next = true ∧
          following = ⟨CircularArrayList.remove clipping.workPoints curr, clipping.index + 1,
            clipping.lines ++ [(prev, next)]⟩ ∨
        ¬(isConvex id curr prev next = true ∧
            isEar id clipping.workPoints curr prev next = true) ∧
          following = { clipping with index := clipping.index + 1 }) := by
  rcases get_corner three clipping.index with
    ⟨prev, curr, next, rest, rotated, atCurr, atPrev, atNext⟩
  refine ⟨prev, curr, next, rest, rotated, atCurr, atPrev, atNext, ?_⟩
  simp only [clippingStep, id_eq, atCurr, atPrev, atNext, Option.bind_eq_bind,
    Option.bind_some] at stepped
  split at stepped
  · rename_i tested
    rw [Bool.and_eq_true] at tested
    have exact : Exact id clipping.workPoints := fun _ _ _ _ _ _ => rfl
    have convex := isConvex_iff exact (rotated.mem_iff.mpr (by simp) : curr ∈ _)
      (rotated.mem_iff.mpr (by simp) : prev ∈ _) (rotated.mem_iff.mpr (by simp) : next ∈ _)
    exact .inl ⟨convex.mp tested.1, tested.2, (Option.some.inj stepped).symm⟩
  · rename_i fails
    rw [Bool.and_eq_true] at fails
    exact .inr ⟨fails, (Option.some.inj stepped).symm⟩

/-- The tested vertex is the one that a clipping round removes. -/
theorem remove_ear_eq (ids : (clipping.workPoints.map MyPoint.id).Nodup)
    (atCurr : CircularArrayList.get clipping.workPoints clipping.index = some curr)
    (atPrev : CircularArrayList.get clipping.workPoints (clipping.index - 1) = some prev)
    (atNext : CircularArrayList.get clipping.workPoints (clipping.index + 1) = some next)
    (left : 0 < turn prev curr next)
    (ear : isEar id clipping.workPoints curr prev next = true) :
    CircularArrayList.remove clipping.workPoints curr =
      clipping.workPoints.eraseIdx (clipping.index % clipping.workPoints.length).toNat :=
  remove_eq_eraseIdx ids atCurr fun _ pMem sameX sameY =>
    eq_of_twin ids (List.mem_of_getElem? atPrev) (List.mem_of_getElem? atCurr)
      (List.mem_of_getElem? atNext) left ear pMem sameX sameY

/-- The remaining points after a clipping round. -/
theorem clipped_points {rest : List MyPoint} (ids : (clipping.workPoints.map MyPoint.id).Nodup)
    (rotated : clipping.workPoints.IsRotated (prev :: curr :: next :: rest))
    (atCurr : CircularArrayList.get clipping.workPoints clipping.index = some curr)
    (atPrev : CircularArrayList.get clipping.workPoints (clipping.index - 1) = some prev)
    (atNext : CircularArrayList.get clipping.workPoints (clipping.index + 1) = some next)
    (left : 0 < turn prev curr next)
    (ear : isEar id clipping.workPoints curr prev next = true) :
    (CircularArrayList.remove clipping.workPoints curr).length + 1 =
        clipping.workPoints.length ∧
      ((CircularArrayList.remove clipping.workPoints curr).map MyPoint.id).Nodup ∧
      doubledArea clipping.workPoints = turn prev curr next +
        doubledArea (CircularArrayList.remove clipping.workPoints curr) := by
  rw [remove_ear_eq ids atCurr atPrev atNext left ear]
  have lt := (List.getElem?_eq_some_iff.mp atCurr).1
  refine ⟨?_, ((List.eraseIdx_sublist _ _).map MyPoint.id).nodup ids, ?_⟩
  · rw [List.length_eraseIdx_of_lt lt]
    omega
  · rw [doubledArea_rotate rotated, doubledArea_clip,
      doubledArea_rotate (isRotated_eraseIdx ids atCurr rotated)]

theorem exists_clippingRun {fuel : ℕ} (three : 3 ≤ clipping.workPoints.length)
    (ids : (clipping.workPoints.map MyPoint.id).Nodup)
    (ends : clippingLoop id fuel clipping = some final) :
    ∃ clips, ClippingRun clipping clips final := by
  induction fuel generalizing clipping with
  | zero => simp [clippingLoop, whileLoop] at ends
  | succ fuel ih =>
      rw [clippingLoop, whileLoop] at ends
      by_cases more : 3 < clipping.workPoints.length
      · rw [if_pos (decide_eq_true more), Option.bind_eq_some_iff] at ends
        rcases ends with ⟨following, stepped, later⟩
        rcases clippingStep_tests three stepped with
          ⟨prev, curr, next, rest, rotated, atCurr, atPrev, atNext, clipped | passed⟩
        · rcases clipped with ⟨left, ear, rfl⟩
          rcases clipped_points ids rotated atCurr atPrev atNext left ear with ⟨length, ids', -⟩
          rcases ih (by simp only; omega) ids' later with ⟨clips, run⟩
          exact ⟨_, .clip more stepped atCurr atPrev atNext rfl rfl run⟩
        · rcases passed with ⟨-, rfl⟩
          rcases @ih { clipping with index := clipping.index + 1 } three ids later with ⟨clips, run⟩
          exact ⟨clips, .pass more stepped ⟨rfl, rfl⟩ run⟩
      · rw [if_neg (by simpa using more)] at ends
        rcases Option.some.inj ends with rfl
        exact ⟨[], .finish more⟩

/-- What the rounds of a run add up to. -/
theorem ClippingRun.spec (run : ClippingRun clipping clips final)
    (three : 3 ≤ clipping.workPoints.length)
    (ids : (clipping.workPoints.map MyPoint.id).Nodup) :
    (∀ clip ∈ clips, clip.Proper) ∧
      final.lines = clipping.lines ++ clips.map (fun clip => (clip.prev, clip.next)) ∧
      final.workPoints.length = 3 ∧ clips.length + 3 = clipping.workPoints.length ∧
      doubledArea clipping.workPoints =
        (clips.map Clip.area).sum + doubledArea final.workPoints := by
  induction run with
  | finish few =>
      refine ⟨by simp, by simp, ?_, ?_, by simp⟩
      · omega
      · simp only [List.length_nil]
        omega
  | pass more stepped kept later ih =>
      rw [← kept.1, ← kept.2]
      exact ih (by rwa [kept.1]) (by rwa [kept.1])
  | @clip clipping following final clips prev curr next more stepped atCurr atPrev atNext
      removed added later ih =>
      rcases clippingStep_tests three stepped with
        ⟨prev', curr', next', rest, rotated, atCurr', atPrev', atNext', clipped | passed⟩
      · rcases Option.some.inj (atCurr.symm.trans atCurr') with rfl
        rcases Option.some.inj (atPrev.symm.trans atPrev') with rfl
        rcases Option.some.inj (atNext.symm.trans atNext') with rfl
        rcases clipped with ⟨left, ear, -⟩
        rcases clipped_points ids rotated atCurr atPrev atNext left ear with ⟨length, ids', area⟩
        rw [← removed] at length ids' area
        rcases ih (by omega) ids' with ⟨proper, lines, last, count, areas⟩
        refine ⟨?_, ?_, last, ?_, ?_⟩
        · intro clip clipMem
          rcases List.mem_cons.mp clipMem with rfl | clipMem
          · refine ⟨left, fun p pMem notPrev notCurr notNext => ?_,
              remove_ear_eq ids atCurr atPrev atNext left ear⟩
            have outside := List.all_eq_true.mp ear p pMem
            simpa [notPrev, notCurr, notNext] using outside
          · exact proper clip clipMem
        · rw [lines, added]
          simp
        · simp only [List.length_cons]
          omega
        · rw [area, areas, List.map_cons, List.sum_cons, Clip.area]
          ring
      · rw [passed.2] at added
        simp at added

/-- When the loop of `triangulate` ends on any different points, its rounds have clipped three
triangles fewer than points, each a proper one, and no area is lost. -/
theorem triangulate_area {points : List MyPoint} {fuel : ℕ} {lines : List (MyPoint × MyPoint)}
    (ids : (points.map MyPoint.id).Nodup) (three : 3 ≤ points.length)
    (ends : triangulate id points fuel = some lines) :
    ∃ clips final, clippingLoop id fuel ⟨points, 0, []⟩ = some final ∧
      ClippingRun ⟨points, 0, []⟩ clips final ∧
      lines = clips.map (fun clip => (clip.prev, clip.next)) ∧
      lines.length + 3 = points.length ∧ (∀ clip ∈ clips, clip.Proper) ∧
      ∃ a b c, final.workPoints = [a, b, c] ∧
        doubledArea points = (clips.map Clip.area).sum + turn a b c := by
  have nonempty : points ≠ [] := by
    rintro rfl
    simp at three
  rw [triangulate, if_neg nonempty, Option.map_eq_some_iff] at ends
  rcases ends with ⟨final, looped, rfl⟩
  rcases exists_clippingRun three ids looped with ⟨clips, run⟩
  rcases run.spec three ids with ⟨proper, lines, last, count, area⟩
  rcases List.length_eq_three.mp last with ⟨a, b, c, triangle⟩
  refine ⟨clips, final, looped, run, by simpa using lines, ?_, proper, a, b, c, triangle, ?_⟩
  · simpa [lines] using count
  · rw [area, triangle, doubledArea_triangle]

/-- A room with one inner corner loses three triangles. -/
theorem triangulate_area_room :
    ∃ clips : List Clip, (∀ clip ∈ clips, clip.Proper) ∧ clips.length = 3 := by
  have ends : triangulate id [⟨0, 0, 0⟩, ⟨1, 4, 0⟩, ⟨2, 4, 2⟩, ⟨3, 2, 2⟩, ⟨4, 2, 4⟩, ⟨5, 0, 4⟩] 7 =
      some [(⟨0, 0, 0⟩, ⟨2, 4, 2⟩), (⟨3, 2, 2⟩, ⟨5, 0, 4⟩), (⟨0, 0, 0⟩, ⟨3, 2, 2⟩)] := by
    decide +kernel
  rcases triangulate_area (by decide) (by decide) ends with ⟨clips, -, -, -, lines, -, proper, -⟩
  refine ⟨clips, proper, ?_⟩
  simpa using (congrArg List.length lines).symm

end Run

end MrsOptimization.Navigation.NavigationGraphBuilder
