import MrsOptimization.Navigation.EarTest

/-!
# Clipping the ears of a path

On a simple polygon that turns to the left every round over the remaining points clips
an ear, and the loop ends with a triangle. The variant of the loop counts the remaining
points and the steps to the next ear. On a rectilinear polygon that turns to the right
no round clips one of its extreme points, and the loop never ends.
-/

namespace MrsOptimization.Navigation

open Plane

namespace NavigationGraphBuilder

section Sweep

variable {int : ℤ → ℤ} {points : List MyPoint}

/-- At this index the loop looks at an ear. -/
def EarAt (points : List MyPoint) (index : ℤ) : Prop :=
  ∃ prev curr next, CircularArrayList.get points index = some curr ∧
    CircularArrayList.get points (index - 1) = some prev ∧
    CircularArrayList.get points (index + 1) = some next ∧
    Ear (points.map MyPoint.toPlane) prev.toPlane curr.toPlane next.toPlane

theorem exists_earAt (polygonal : Polygonal points) (three : 3 ≤ points.length)
    (positive : 0 < doubledArea points) (index : ℤ) :
    ∃ k < points.length, EarAt points (index + k) := by
  rcases exists_ear polygonal.simple (by simpa using three) ((shoelace_pos_iff points).mpr positive)
    with ⟨a, m, b, ear⟩
  rcases List.mem_map.mp (snd_mem ear.into) with ⟨p, pMem, rfl⟩
  rcases List.mem_iff_getElem.mp pMem with ⟨j, lt, atJ⟩
  have size : (0 : ℤ) < points.length := by omega
  have nonneg := Int.emod_nonneg (j - index) size.ne'
  have small := Int.emod_lt_of_pos (j - index) size
  refine ⟨((j - index) % points.length).toNat, by omega, ?_⟩
  rw [Int.toNat_of_nonneg nonneg]
  have reached : CircularArrayList.get points (index + (j - index) % points.length) = some p := by
    have residue : (index + (j - index) % points.length) % points.length = j := by
      rw [Int.add_emod_emod, add_sub_cancel, Int.emod_eq_of_lt (by omega) (by omega)]
    rw [CircularArrayList.get, residue, Int.toNat_natCast, List.getElem?_eq_getElem lt, atJ]
  rcases get_corner three (index + (j - index) % points.length) with
    ⟨prev, curr, next, rest, rotated, atCurr, atPrev, atNext⟩
  obtain rfl : p = curr := Option.some.inj (reached.symm.trans atCurr)
  refine ⟨prev, p, next, atCurr, atPrev, atNext, ?_⟩
  have perm := edges_perm (rotated.map MyPoint.toPlane)
  have into : (prev.toPlane, p.toPlane) ∈ edges (points.map MyPoint.toPlane) :=
    perm.mem_iff.mpr (by simp [edges_corner])
  have out : (p.toPlane, next.toPlane) ∈ edges (points.map MyPoint.toPlane) :=
    perm.mem_iff.mpr (by simp [edges_corner])
  have before := eq_of_snd_eq polygonal.simple.nodup ear.into into rfl
  have after := eq_of_fst_eq polygonal.simple.nodup ear.out out rfl
  simp only [Prod.mk.injEq, and_true, true_and] at before after
  rw [← before, ← after]
  exact ear

/-- The number of steps to the next ear. -/
noncomputable def wait (points : List MyPoint) (index : ℤ) : ℕ :=
  sInf {k : ℕ | EarAt points (index + k)}

theorem wait_lt (polygonal : Polygonal points) (three : 3 ≤ points.length)
    (positive : 0 < doubledArea points) (index : ℤ) : wait points index < points.length := by
  rcases exists_earAt polygonal three positive index with ⟨k, lt, atEar⟩
  exact (Nat.sInf_le atEar).trans_lt lt

/-- Without an ear at an index the next ear is a step closer from the next index. -/
theorem wait_next (polygonal : Polygonal points) (three : 3 ≤ points.length)
    (positive : 0 < doubledArea points) {index : ℤ} (noEar : ¬EarAt points index) :
    wait points (index + 1) < wait points index := by
  rcases exists_earAt polygonal three positive index with ⟨k, -, atEar⟩
  have reached : EarAt points (index + wait points index) :=
    Nat.sInf_mem (s := {k : ℕ | EarAt points (index + k)}) ⟨k, atEar⟩
  obtain ⟨steps, shape⟩ : ∃ steps, wait points index = steps + 1 := by
    apply Nat.exists_eq_succ_of_ne_zero
    intro none
    rw [none] at reached
    exact noEar (by simpa using reached)
  rw [shape] at reached ⊢
  apply Nat.lt_succ_of_le
  apply Nat.sInf_le
  have shift : index + ((steps + 1 : ℕ) : ℤ) = index + 1 + steps := by
    push_cast
    ring
  rw [shift] at reached
  exact reached

end Sweep

section Loop

variable {int : ℤ → ℤ} {path : List MyPoint}

/-- What one round does, at an ear and elsewhere. -/
theorem clippingStep_spec {clipping : Clipping} (polygonal : Polygonal clipping.workPoints)
    (exact : Exact int clipping.workPoints) (three : 3 ≤ clipping.workPoints.length)
    (before : int (clipping.index - 1) = clipping.index - 1)
    (after : int (clipping.index + 1) = clipping.index + 1) :
    (∃ prev curr next rest,
      clipping.workPoints.IsRotated (prev :: curr :: next :: rest) ∧
      Ear (clipping.workPoints.map MyPoint.toPlane) prev.toPlane curr.toPlane next.toPlane ∧
      clippingStep int clipping = some ⟨CircularArrayList.remove clipping.workPoints curr,
        clipping.index + 1, clipping.lines ++ [(prev, next)]⟩) ∨
    ¬EarAt clipping.workPoints clipping.index ∧
      clippingStep int clipping = some { clipping with index := clipping.index + 1 } := by
  rcases get_corner three clipping.index with
    ⟨prev, curr, next, rest, rotated, atCurr, atPrev, atNext⟩
  have clips := clips_iff polygonal exact rotated
  simp only [clippingStep, before, after, atCurr, atPrev, atNext, Option.bind_eq_bind,
    Option.bind_some]
  by_cases ear : Ear (clipping.workPoints.map MyPoint.toPlane) prev.toPlane curr.toPlane
      next.toPlane
  · left
    refine ⟨prev, curr, next, rest, rotated, ear, ?_⟩
    rw [if_pos (clips.mpr ear)]
    rfl
  · right
    refine ⟨?_, ?_⟩
    · rintro ⟨prev', curr', next', atCurr', atPrev', atNext', ear'⟩
      rcases Option.some.inj (atCurr.symm.trans atCurr') with rfl
      rcases Option.some.inj (atPrev.symm.trans atPrev') with rfl
      rcases Option.some.inj (atNext.symm.trans atNext') with rfl
      exact ear ear'
    · rw [if_neg fun tested => ear (clips.mp tested)]
      rfl

/-- A round removes one point, or the next ear comes one step closer. -/
noncomputable def remaining (clipping : Clipping) : ℕ :=
  clipping.workPoints.length ^ 2 + wait clipping.workPoints clipping.index

/-- The remaining points are a simple polygon that turns to the left. -/
structure Clippable (path : List MyPoint) (clipping : Clipping) : Prop where
  sublist : clipping.workPoints.Sublist path
  simple : IsSimple clipping.workPoints
  positive : 0 < doubledArea clipping.workPoints
  three : 3 ≤ clipping.workPoints.length
  count : clipping.lines.length + clipping.workPoints.length = path.length
  index : 0 ≤ clipping.index
  rounds : clipping.index + remaining clipping ≤ path.length ^ 2 + path.length

theorem Clippable.polygonal {clipping : Clipping} (ids : (path.map MyPoint.id).Nodup)
    (clippable : Clippable path clipping) : Polygonal clipping.workPoints :=
  ⟨(clippable.sublist.map MyPoint.id).nodup ids, clippable.simple⟩

theorem remove_simple {points : List MyPoint} (polygonal : Polygonal points)
    {prev curr next : MyPoint} {rest : List MyPoint} (more : rest ≠ [])
    (rotated : points.IsRotated (prev :: curr :: next :: rest))
    (ear : Ear (points.map MyPoint.toPlane) prev.toPlane curr.toPlane next.toPlane) :
    IsSimple (CircularArrayList.remove points curr) := by
  have rotated' := rotated.map MyPoint.toPlane
  have removed := (remove_spec polygonal rotated).2.map MyPoint.toPlane
  have more' : rest.map MyPoint.toPlane ≠ [] := by simpa using more
  exact SimplePolygon.rotate
    (simple_clipped (polygonal.simple.rotate rotated') (ear.rotate rotated') more') removed.symm

theorem doubledArea_remove {points : List MyPoint} (polygonal : Polygonal points)
    {prev curr next : MyPoint} {rest : List MyPoint}
    (rotated : points.IsRotated (prev :: curr :: next :: rest)) :
    doubledArea points =
      turn prev curr next + doubledArea (CircularArrayList.remove points curr) := by
  rw [doubledArea_rotate rotated, doubledArea_clip,
    doubledArea_rotate (remove_spec polygonal rotated).2]

/-- Removing an ear leaves a polygon that turns to the left. -/
theorem remove_positive {points : List MyPoint} (polygonal : Polygonal points)
    (positive : 0 < doubledArea points) {prev curr next : MyPoint} {rest : List MyPoint}
    (more : rest ≠ []) (rotated : points.IsRotated (prev :: curr :: next :: rest))
    (ear : Ear (points.map MyPoint.toPlane) prev.toPlane curr.toPlane next.toPlane) :
    0 < doubledArea (CircularArrayList.remove points curr) := by
  have rotated' := rotated.map MyPoint.toPlane
  have removed := (remove_spec polygonal rotated).2.map MyPoint.toPlane
  have more' : rest.map MyPoint.toPlane ≠ [] := by simpa using more
  rw [← shoelace_pos_iff, shoelace_perm (edges_perm rotated')] at positive
  rw [← shoelace_pos_iff, shoelace_perm (edges_perm removed)]
  exact (clip_ear (polygonal.simple.rotate rotated') (ear.rotate rotated') more' positive).2

/-- The index stays small enough for an `int`. -/
theorem Clippable.index_exact {clipping : Clipping} (clippable : Clippable path clipping)
    (int_eq : ∀ v : ℤ, |v| ≤ path.length ^ 2 + path.length → int v = v) :
    int (clipping.index - 1) = clipping.index - 1 ∧
      int (clipping.index + 1) = clipping.index + 1 := by
  have rounds := clippable.rounds
  have started := clippable.index
  have three := clippable.three
  have size := clippable.sublist.length_le
  have more : 1 ≤ remaining clipping := by
    rw [remaining]
    nlinarith
  constructor <;> apply int_eq <;> rw [abs_le] <;> constructor <;> nlinarith

/-- Clipping an ear keeps the invariant. -/
theorem Clippable.clip {clipping : Clipping} (ids : (path.map MyPoint.id).Nodup)
    (clippable : Clippable path clipping) (continues : 3 < clipping.workPoints.length)
    {prev curr next : MyPoint} {rest : List MyPoint}
    (rotated : clipping.workPoints.IsRotated (prev :: curr :: next :: rest))
    (ear : Ear (clipping.workPoints.map MyPoint.toPlane) prev.toPlane curr.toPlane
      next.toPlane) :
    Clippable path ⟨CircularArrayList.remove clipping.workPoints curr, clipping.index + 1,
        clipping.lines ++ [(prev, next)]⟩ ∧
      remaining ⟨CircularArrayList.remove clipping.workPoints curr, clipping.index + 1,
        clipping.lines ++ [(prev, next)]⟩ < remaining clipping := by
  have polygonal := clippable.polygonal ids
  have rounds := clippable.rounds
  have started := clippable.index
  have count := clippable.count
  have length := rotated.perm.length_eq
  simp only [List.length_cons] at length
  have others : rest ≠ [] := by
    rintro rfl
    simp only [List.length_nil] at length
    omega
  have simple := remove_simple polygonal others rotated ear
  have positive := remove_positive polygonal clippable.positive others rotated ear
  rcases remove_spec polygonal rotated with ⟨sublist, removed⟩
  have length' := removed.perm.length_eq
  simp only [List.length_cons] at length'
  have three : 3 ≤ (CircularArrayList.remove clipping.workPoints curr).length := by omega
  have fewer : clipping.workPoints.length =
      (CircularArrayList.remove clipping.workPoints curr).length + 1 := by omega
  have polygonal' : Polygonal (CircularArrayList.remove clipping.workPoints curr) :=
    ⟨(sublist.map MyPoint.id).nodup polygonal.ids, simple⟩
  have soon := wait_lt polygonal' three positive (clipping.index + 1)
  have shorter : remaining ⟨CircularArrayList.remove clipping.workPoints curr,
      clipping.index + 1, clipping.lines ++ [(prev, next)]⟩ < remaining clipping := by
    simp only [remaining, fewer]
    nlinarith
  refine ⟨⟨sublist.trans clippable.sublist, simple, positive, three, ?_, ?_, ?_⟩, shorter⟩
  · simp only [List.length_append, List.length_singleton]
    omega
  · simp only
    omega
  · simp only
    omega

/-- Passing over a point that is no ear keeps the invariant. -/
theorem Clippable.pass {clipping : Clipping} (ids : (path.map MyPoint.id).Nodup)
    (clippable : Clippable path clipping)
    (noEar : ¬EarAt clipping.workPoints clipping.index) :
    Clippable path { clipping with index := clipping.index + 1 } ∧
      remaining { clipping with index := clipping.index + 1 } < remaining clipping := by
  have rounds := clippable.rounds
  have started := clippable.index
  have closer := wait_next (clippable.polygonal ids) clippable.three clippable.positive noEar
  have shorter : remaining { clipping with index := clipping.index + 1 } <
      remaining clipping := by
    simp only [remaining]
    omega
  refine ⟨{ clippable with index := ?_, rounds := ?_ }, shorter⟩
  · simp only
    omega
  · simp only
    omega

/-- One round keeps the invariant and brings the end closer. -/
theorem Clippable.step {clipping : Clipping} (ids : (path.map MyPoint.id).Nodup)
    (exact : Exact int path)
    (int_eq : ∀ v : ℤ, |v| ≤ path.length ^ 2 + path.length → int v = v)
    (clippable : Clippable path clipping) (continues : 3 < clipping.workPoints.length) :
    ∃ next, clippingStep int clipping = some next ∧ Clippable path next ∧
      remaining next < remaining clipping := by
  rcases clippable.index_exact int_eq with ⟨before, after⟩
  rcases clippingStep_spec (clippable.polygonal ids) (exact.sublist clippable.sublist)
      clippable.three before after with
    ⟨prev, curr, next, rest, rotated, ear, stepped⟩ | ⟨noEar, stepped⟩
  · exact ⟨_, stepped, clippable.clip ids continues rotated ear⟩
  · exact ⟨_, stepped, clippable.pass ids noEar⟩

/-- On a simple polygon that turns to the left `triangulate` ends with all diagonals. -/
theorem triangulate_polygon (polygonal : Polygonal path) (exact : Exact int path)
    (int_eq : ∀ v : ℤ, |v| ≤ path.length ^ 2 + path.length → int v = v)
    (three : 3 ≤ path.length) (positive : 0 < doubledArea path) :
    ∃ lines, lines.length + 3 = path.length ∧
      ∀ fuel, path.length ^ 2 + path.length < fuel → triangulate int path fuel = some lines := by
  have soon := wait_lt polygonal three positive 0
  have start : Clippable path ⟨path, 0, []⟩ :=
    { sublist := List.Sublist.refl path, simple := polygonal.simple, positive := positive,
      three := three, count := by simp, index := le_rfl,
      rounds := by
        simp only [remaining]
        push_cast
        omega }
  rcases @whileLoop_total Clipping (fun clipping => decide (3 < clipping.workPoints.length))
      (clippingStep int) (Clippable path) remaining
      (fun clipping clippable continues =>
        clippable.step polygonal.ids exact int_eq (of_decide_eq_true continues))
      ⟨path, 0, []⟩ start with ⟨final, runs, clippable, finished⟩
  have few := of_decide_eq_false finished
  have three' := clippable.three
  have count := clippable.count
  refine ⟨final.lines, by omega, fun fuel enough => ?_⟩
  have nonempty : path ≠ [] := by
    rintro rfl
    simp at three
  rw [triangulate, if_neg nonempty, clippingLoop, runs fuel, Option.map_some]
  simp only [remaining]
  omega

theorem triangulate_triangle (three : path.length = 3) {fuel : ℕ} (enough : 0 < fuel) :
    triangulate int path fuel = some [] := by
  have nonempty : path ≠ [] := by
    rintro rfl
    simp at three
  rcases Nat.exists_eq_succ_of_ne_zero enough.ne' with ⟨fuel, rfl⟩
  simp [triangulate, nonempty, clippingLoop, whileLoop, three]

end Loop

section Never

variable {path : List MyPoint} {ends : List Plane}

/-- The remaining points turn to the right, and the extreme ones are still there. -/
structure Blocked (path : List MyPoint) (ends : List Plane) (clipping : Clipping) : Prop where
  sublist : clipping.workPoints.Sublist path
  simple : IsSimple clipping.workPoints
  negative : doubledArea clipping.workPoints < 0
  extreme : ∀ m ∈ ends, m ∈ clipping.workPoints.map MyPoint.toPlane ∧
    Extreme (clipping.workPoints.map MyPoint.toPlane) m

theorem Blocked.long {clipping : Clipping} (blocked : Blocked path ends clipping)
    (nodup : ends.Nodup) (four : ends.length = 4) : 3 < clipping.workPoints.length := by
  have sublist : ends.Subperm (clipping.workPoints.map MyPoint.toPlane) :=
    nodup.subperm fun m mMem => (blocked.extreme m mMem).1
  have bound := sublist.length_le
  rw [List.length_map] at bound
  omega

/-- A point that is clipped is no extreme one. -/
theorem Blocked.kept {clipping : Clipping} (blocked : Blocked path ends clipping)
    (polygonal : Polygonal clipping.workPoints) (long : 3 < clipping.workPoints.length)
    {prev curr next : MyPoint} {rest : List MyPoint}
    (rotated : clipping.workPoints.IsRotated (prev :: curr :: next :: rest))
    (ear : Ear (clipping.workPoints.map MyPoint.toPlane) prev.toPlane curr.toPlane
      next.toPlane) :
    ∀ m ∈ ends, m ∈ (CircularArrayList.remove clipping.workPoints curr).map MyPoint.toPlane := by
  have negative := (shoelace_neg_iff clipping.workPoints).mpr blocked.negative
  have notExtreme := ear.not_extreme polygonal.simple (by simpa using long.le) negative
  intro m mMem
  rcases blocked.extreme m mMem with ⟨present, extreme⟩
  rw [(rotated.map MyPoint.toPlane).mem_iff] at present
  rw [((remove_spec polygonal rotated).2.map MyPoint.toPlane).mem_iff]
  simp only [List.map_cons, List.mem_cons] at present ⊢
  rcases present with before | rfl | after
  · exact .inl before
  · exact (notExtreme extreme).elim
  · exact .inr after

/-- A round may clip a point, but no extreme one. -/
theorem Blocked.step {clipping : Clipping} (ids : (path.map MyPoint.id).Nodup)
    (nodup : ends.Nodup) (four : ends.length = 4) (blocked : Blocked path ends clipping) :
    ∃ next, clippingStep id clipping = some next ∧ Blocked path ends next := by
  have polygonal : Polygonal clipping.workPoints :=
    ⟨(blocked.sublist.map MyPoint.id).nodup ids, blocked.simple⟩
  have long := blocked.long nodup four
  have exact : Exact id clipping.workPoints := fun _ _ _ _ _ _ => rfl
  rcases clippingStep_spec polygonal exact long.le rfl rfl with
    ⟨prev, curr, next, rest, rotated, ear, stepped⟩ | ⟨-, stepped⟩
  · refine ⟨_, stepped, ?_⟩
    have sublist := (remove_spec polygonal rotated).1
    have more : rest ≠ [] := by
      rintro rfl
      have length := rotated.perm.length_eq
      simp only [List.length_cons, List.length_nil] at length
      omega
    have kept := blocked.kept polygonal long rotated ear
    refine ⟨sublist.trans blocked.sublist, remove_simple polygonal more rotated ear, ?_,
      fun m mMem => ⟨kept m mMem, ?_⟩⟩
    · have left : 0 < turn prev curr next := by
        have positive := ear.left
        rw [area2_toPlane] at positive
        exact_mod_cast positive
      have negative := blocked.negative
      rw [doubledArea_remove polygonal rotated] at negative
      simp only
      linarith
    · exact (blocked.extreme m mMem).2.sublist (sublist.map MyPoint.toPlane) (kept m mMem)
  · exact ⟨_, stepped, blocked.sublist, blocked.simple, blocked.negative, blocked.extreme⟩

/-- On a rectilinear simple polygon that turns to the right the loop never ends. -/
theorem triangulate_never (ids : (path.map MyPoint.id).Nodup) (three : 3 ≤ path.length)
    (simple : IsSimple path) (rectilinear : ∀ e ∈ edges path, e.1.x = e.2.x ∨ e.1.y = e.2.y)
    (negative : doubledArea path < 0) (fuel : ℕ) : triangulate id path fuel = none := by
  have rectilinear' : Rectilinear (path.map MyPoint.toPlane) := by
    rw [Rectilinear, edges_map]
    intro e eMem
    rcases List.mem_map.mp eMem with ⟨e', eMem', rfl⟩
    simpa [MyPoint.toPlane] using rectilinear e' eMem'
  rcases exists_four_extremes simple (by simpa using three) rectilinear' with
    ⟨ends, nodup, four, extreme⟩
  have never (clipping : Clipping) (blocked : Blocked path ends clipping) :
      clippingLoop id fuel clipping = none := by
    induction fuel generalizing clipping with
    | zero => rfl
    | succ fuel ih =>
        rcases blocked.step ids nodup four with ⟨next, stepped, blocked'⟩
        rw [clippingLoop, whileLoop, if_pos (decide_eq_true (blocked.long nodup four)), stepped,
          Option.bind_some]
        exact ih next blocked'
  rw [triangulate, never ⟨path, 0, []⟩ ⟨List.Sublist.refl path, simple, negative, extreme⟩]
  simp

end Never

/-- For every bitmap and foreground start pixel `triangulate` ends, with three diagonals fewer
than points, when a path of more than three points is a simple polygon that turns to the left.
Turned to the right, as around an obstacle, a rectilinear simple polygon keeps it from ending. -/
theorem triangulate_followWalls {int : ℤ → ℤ} {bound : ℤ} {builder : NavigationGraphBuilder}
    {startX startY : ℤ} {fuel : ℕ} {path : List MyPoint}
    (int_eq : ∀ v, |v| ≤ bound → int v = v)
    (colours : builder.backColor ≠ builder.foreColor)
    (start : builder.getPixelColor startX startY = builder.foreColor)
    (follows : builder.followWalls startX startY fuel = some path) (three : 3 ≤ path.length)
    (fits : ((builder.image.width + 1) * (builder.image.height + 1) : ℤ) ≤ bound)
    (short : (path.length ^ 2 + path.length : ℤ) ≤ bound) :
    ((3 < path.length → IsSimple path ∧ 0 < doubledArea path) →
      ∃ lines, lines.length + 3 = path.length ∧ ∀ fuel, path.length ^ 2 + path.length < fuel →
        triangulate int path fuel = some lines) ∧
    (IsSimple path → (∀ e ∈ edges path, e.1.x = e.2.x ∨ e.1.y = e.2.y) → doubledArea path < 0 →
      ∀ fuel, triangulate id path fuel = none) := by
  have inFrame := followWalls_inFrame colours start follows
  have ids : (path.map MyPoint.id).Nodup := by
    rw [inFrame.ids]
    exact List.nodup_range
  constructor
  · intro polygon
    rcases three.eq_or_lt with triangle | longer
    · exact ⟨[], triangle, fun fuel enough => triangulate_triangle triangle.symm (by omega)⟩
    have inBox : ∀ p ∈ path,
        InBox (-1) (-1) (builder.image.width + 1) (builder.image.height + 1) p := by
      intro p pMem
      rcases inFrame.frame p pMem with ⟨left, right, top, bottom⟩
      exact ⟨left, by omega, top, by omega⟩
    have exact := exact_of_inBox int_eq inBox fits
    exact triangulate_polygon ⟨ids, (polygon longer).1⟩ exact
      (fun v small => int_eq v (small.trans short)) three (polygon longer).2
  · exact triangulate_never ids three

section Rooms

/-- Free space with or without obstacles. -/
def room (width height : ℕ) (obstacle : Point → Bool) : NavigationGraphBuilder where
  image := ⟨width, height, fun point => if obstacle point then Color.black else Color.white⟩

def freeRoom : NavigationGraphBuilder := room 3 3 fun _ => false

/-- The outer corners of the free room. -/
def freePath : List MyPoint := [⟨0, 2, 2⟩, ⟨1, 0, 2⟩, ⟨2, 0, 0⟩, ⟨3, 2, 0⟩]

def obstacleRoom : NavigationGraphBuilder := room 5 5 fun point => point.x = 2 ∧ point.y = 2

/-- The corners around the obstacle. -/
def obstaclePath : List MyPoint := [⟨0, 1, 3⟩, ⟨1, 3, 3⟩, ⟨2, 3, 1⟩, ⟨3, 1, 1⟩]

def corridor : NavigationGraphBuilder := room 3 1 fun _ => false

/-- In a corridor one pixel wide the walker leaves the free space and enters it again. -/
def corridorPath : List MyPoint :=
  [⟨0, 2, 0⟩, ⟨1, 0, 0⟩, ⟨2, 0, -1⟩, ⟨3, 1, -1⟩, ⟨4, 1, 1⟩, ⟨5, 0, 1⟩, ⟨6, 0, 0⟩]

theorem segment_bounds {p q z : Plane} (mem : z ∈ segment ℝ p q) :
    (min p.1 q.1 ≤ z.1 ∧ z.1 ≤ max p.1 q.1) ∧ min p.2 q.2 ≤ z.2 ∧ z.2 ≤ max p.2 q.2 := by
  rcases Prod.segment_subset p q mem with ⟨first, second⟩
  rw [segment_eq_uIcc] at first second
  exact ⟨first, second⟩

/-- A rectangle is a simple polygon, in both directions. -/
theorem isSimple_rectangle {x x' y y' : ℤ} (wide : x ≠ x') (high : y ≠ y') :
    IsSimple [⟨0, x, y⟩, ⟨1, x', y⟩, ⟨2, x', y'⟩, ⟨3, x, y'⟩] where
  nodup := by
    simp [MyPoint.toPlane, wide, high, wide.symm]
  meet e eMem f fMem distinct z onE onF := by
    have wide' : (x : ℝ) ≠ x' := by exact_mod_cast wide
    have high' : (y : ℝ) ≠ y' := by exact_mod_cast high
    have boundsE := segment_bounds onE
    have boundsF := segment_bounds onF
    simp only [List.map_cons, List.map_nil, edges, chain, List.cons_append,
      List.nil_append, List.mem_cons, List.not_mem_nil, or_false, MyPoint.toPlane] at eMem fMem
    rcases eMem with rfl | rfl | rfl | rfl <;> rcases fMem with rfl | rfl | rfl | rfl <;>
      first
      | exact (distinct rfl).elim
      | simp only [Prod.ext_iff] at boundsE boundsF ⊢
        grind

/-- The loop ends with one diagonal of the free room, and never around the obstacle. -/
theorem triangulate_rooms :
    (∃ lines, lines.length + 3 = freePath.length ∧
      ∀ fuel, 20 < fuel → triangulate (wrap 32) freePath fuel = some lines) ∧
    ∀ fuel, triangulate id obstaclePath fuel = none := by
  have exact : ∀ v : ℤ, |v| ≤ 2 ^ 31 - 1 → wrap 32 v = v := by
    intro v small
    rw [abs_le] at small
    apply wrap_of_mem_range <;> omega
  have follows : freeRoom.followWalls 0 1 20 = some freePath := by
    decide +kernel
  have follows' : obstacleRoom.followWalls 1 2 20 = some obstaclePath := by
    decide +kernel
  have free := triangulate_followWalls exact (by decide) (by decide) follows (by decide)
    (by decide) (by decide)
  have around := triangulate_followWalls exact (by decide) (by decide) follows' (by decide)
    (by decide) (by decide)
  have freeSimple : IsSimple freePath := isSimple_rectangle (by decide) (by decide)
  have aroundSimple : IsSimple obstaclePath := isSimple_rectangle (by decide) (by decide)
  exact ⟨free.1 fun _ => ⟨freeSimple, by decide⟩, around.2 aroundSimple (by decide) (by decide)⟩

end Rooms

section Stuck

variable {int : ℤ → ℤ} {points : List MyPoint} {lines : List (MyPoint × MyPoint)}

theorem get_congr {index index' : ℤ} (same : index % points.length = index' % points.length) :
    CircularArrayList.get points index = CircularArrayList.get points index' := by
  rw [CircularArrayList.get, same, CircularArrayList.get]

/-- When one round over the points finds no ear, no round does. -/
theorem clippingStep_stuck (nonempty : points ≠ [])
    (residue : ∀ v, int v % points.length = v % points.length)
    (stuck : ∀ j < points.length,
      clippingStep int ⟨points, j, lines⟩ = some ⟨points, int (j + 1), lines⟩) (index : ℤ) :
    clippingStep int ⟨points, index, lines⟩ = some ⟨points, int (index + 1), lines⟩ := by
  have size : (0 : ℤ) < points.length := by
    exact_mod_cast List.length_pos_iff.mpr nonempty
  have nonneg := Int.emod_nonneg index size.ne'
  have small := Int.emod_lt_of_pos index size
  have known := stuck (index % points.length).toNat (by omega)
  rw [Int.toNat_of_nonneg nonneg] at known
  have atCurr : CircularArrayList.get points (index % points.length) =
      CircularArrayList.get points index := get_congr (Int.emod_emod_of_dvd _ dvd_rfl)
  have atPrev : CircularArrayList.get points (int (index % points.length - 1)) =
      CircularArrayList.get points (int (index - 1)) := by
    apply get_congr
    rw [residue, residue, Int.emod_sub_emod]
  have atNext : CircularArrayList.get points (int (index % points.length + 1)) =
      CircularArrayList.get points (int (index + 1)) := by
    apply get_congr
    rw [residue, residue, Int.emod_add_emod]
  simp only [clippingStep, atCurr, atPrev, atNext, Option.bind_eq_bind,
    Option.bind_eq_some_iff] at known ⊢
  rcases known with ⟨curr, isCurr, prev, isPrev, next, isNext, tested⟩
  refine ⟨curr, isCurr, prev, isPrev, next, isNext, ?_⟩
  split at tested
  · have added := congrArg (fun clipping => clipping.lines.length) (Option.some.inj tested)
    simp at added
  · rename_i fails
    rw [if_neg fails]
    rfl

theorem clippingLoop_stuck (more : 3 < points.length)
    (residue : ∀ v, int v % points.length = v % points.length)
    (stuck : ∀ j < points.length,
      clippingStep int ⟨points, j, lines⟩ = some ⟨points, int (j + 1), lines⟩) (index : ℤ)
    (fuel : ℕ) : clippingLoop int fuel ⟨points, index, lines⟩ = none := by
  have nonempty : points ≠ [] := by
    rintro rfl
    simp at more
  induction fuel generalizing index with
  | zero => rfl
  | succ fuel ih =>
      rw [clippingLoop, whileLoop, if_pos (decide_eq_true more),
        clippingStep_stuck nonempty residue stuck, Option.bind_some]
      exact ih _

end Stuck

theorem obstacle_never (fuel : ℕ) : triangulate (wrap 32) obstaclePath fuel = none := by
  have residue : ∀ v, wrap 32 v % obstaclePath.length = v % obstaclePath.length := by
    intro v
    simp only [wrap, Int.bmod_def, obstaclePath, List.length_cons, List.length_nil]
    split <;> omega
  rw [triangulate, clippingLoop_stuck (by decide) residue]
  · rfl
  · intro j lt
    change j < 4 at lt
    interval_cases j <;> decide +kernel

theorem corridor_never (fuel : ℕ) : triangulate id corridorPath fuel = none := by
  have stuck : ∀ fuel, clippingLoop id fuel
      ⟨corridorPath.eraseIdx 3, 4, [(⟨2, 0, -1⟩, ⟨4, 1, 1⟩)]⟩ = none := by
    apply clippingLoop_stuck (by decide) fun v => rfl
    intro j lt
    change j < 6 at lt
    interval_cases j <;> decide +kernel
  have never : ∀ fuel, clippingLoop id fuel ⟨corridorPath, 0, []⟩ = none := by
    have third : clippingStep id ⟨corridorPath, 3, []⟩ =
        some ⟨corridorPath.eraseIdx 3, 4, [(⟨2, 0, -1⟩, ⟨4, 1, 1⟩)]⟩ := by decide +kernel
    have skip : ∀ j < 3, clippingStep id ⟨corridorPath, (j : ℕ), []⟩ =
        some ⟨corridorPath, (j + 1 : ℕ), []⟩ := by decide +kernel
    have atThird := fun fuel => whileLoop_eq_none_of_step (by decide) third stuck fuel
    have atSecond := whileLoop_eq_none_of_step (by decide) (skip 2 (by decide)) atThird
    have atFirst := whileLoop_eq_none_of_step (by decide) (skip 1 (by decide)) atSecond
    exact whileLoop_eq_none_of_step (by decide) (skip 0 (by decide)) atFirst
  rw [triangulate, never]
  rfl

/-- Around an obstacle the path turns to the right, and in a corridor it meets itself: neither
loop ends. -/
theorem obstacle_not_triangulated :
    (obstacleRoom.getPixelColor 1 2 = obstacleRoom.foreColor ∧
      obstacleRoom.followWalls 1 2 20 = some obstaclePath ∧ 3 ≤ obstaclePath.length ∧
      ∀ fuel, triangulate (wrap 32) obstaclePath fuel = none) ∧
    corridor.getPixelColor 0 0 = corridor.foreColor ∧
      corridor.followWalls 0 0 20 = some corridorPath ∧ 3 ≤ corridorPath.length ∧
      ∀ fuel, triangulate id corridorPath fuel = none :=
  ⟨⟨by decide, by decide +kernel, by decide, obstacle_never⟩,
    by decide, by decide +kernel, by decide, corridor_never⟩

end NavigationGraphBuilder

end MrsOptimization.Navigation
