import Mathlib.Data.Int.Interval
import Mathlib.Order.Preorder.Finite
import MrsOptimization.Navigation.FollowWalls

/-!
# A walk returns

A step of `followWalls` can be taken back: the walker came from the pixel behind it, and
the corner there tells how it turned. As the walker cannot leave the frame, it comes back
to the pixel and the heading it started with, whatever the image looks like.
-/

namespace MrsOptimization.Navigation

namespace Walker

/-- Where a walker is and where it is heading. -/
def pose (walker : Walker) : ℤ × ℤ × ℤ × ℤ := (walker.x, walker.y, walker.dx, walker.dy)

def Heads (walker : Walker) : Prop :=
  walker.dx = 0 ∧ (walker.dy = 1 ∨ walker.dy = -1) ∨
    walker.dy = 0 ∧ (walker.dx = 1 ∨ walker.dx = -1)

variable {walker : Walker}

theorem Heads.turnRight (heads : walker.Heads) :
    walker.turnRight = { walker with dx := -walker.dy, dy := walker.dx } := by
  rcases walker with ⟨x, y, dx, dy, path⟩
  rcases heads with ⟨rfl, rfl | rfl⟩ | ⟨rfl, rfl | rfl⟩ <;> simp [Walker.turnRight]

theorem Heads.turnLeft (heads : walker.Heads) :
    walker.turnLeft = { walker with dx := walker.dy, dy := -walker.dx } := by
  rcases walker with ⟨x, y, dx, dy, path⟩
  rcases heads with ⟨rfl, rfl | rfl⟩ | ⟨rfl, rfl | rfl⟩ <;> simp [Walker.turnLeft]

end Walker

namespace NavigationGraphBuilder

variable {builder : NavigationGraphBuilder} {walker other : Walker}

theorem heads_followStep (heads : walker.Heads) : (builder.followStep walker).Heads := by
  have right : walker.turnRight.addPoint.step.Heads := by
    simp only [heads.turnRight, Walker.addPoint, Walker.step, Walker.Heads] at heads ⊢
    omega
  have left : walker.turnLeft.addPoint.step.Heads := by
    simp only [heads.turnLeft, Walker.addPoint, Walker.step, Walker.Heads] at heads ⊢
    omega
  rw [followStep]
  split
  · exact right
  · split
    · exact left
    · exact heads

/-- The walker came from the pixel behind it. -/
theorem followStep_behind (walker : Walker) :
    (builder.followStep walker).x - (builder.followStep walker).dx = walker.x ∧
      (builder.followStep walker).y - (builder.followStep walker).dy = walker.y := by
  rcases turnRight_shape walker with ⟨_, _, right⟩
  rcases turnLeft_shape walker with ⟨_, _, left⟩
  rcases builder.followStep_cases walker with turned | ⟨-, turned | straight⟩
  · simp [turned, right, Walker.addPoint, Walker.step]
  · simp [turned, left, Walker.addPoint, Walker.step]
  · simp [straight, Walker.step]

/-- A step can be taken back. -/
theorem pose_followStep_inj (heads : walker.Heads) (heads' : other.Heads)
    (same : (builder.followStep walker).pose = (builder.followStep other).pose) :
    walker.pose = other.pose := by
  have behind := builder.followStep_behind walker
  have behind' := builder.followStep_behind other
  simp only [Walker.pose, Prod.mk.injEq] at same ⊢
  have sameX : walker.x = other.x := by omega
  have sameY : walker.y = other.y := by omega
  rcases same with ⟨-, -, sameDx, sameDy⟩
  rw [followStep, followStep, sameX, sameY] at sameDx sameDy
  refine ⟨sameX, sameY, ?_⟩
  split at sameDx
  · rename_i inner
    simp only [inner, if_true, heads.turnRight, heads'.turnRight, Walker.addPoint,
      Walker.step] at sameDx sameDy
    omega
  · rename_i inner
    rw [if_neg inner, if_neg inner] at sameDy
    split at sameDx
    · rename_i outer
      simp only [outer, if_true, heads.turnLeft, heads'.turnLeft, Walker.addPoint,
        Walker.step] at sameDx sameDy
      omega
    · rename_i outer
      simp only [outer, Walker.step] at sameDx sameDy
      exact ⟨sameDx, sameDy⟩

theorem iterate_followStep_inFrame
    (nonempty : 0 < builder.image.width ∧ 0 < builder.image.height)
    (inFrame : builder.InFrame walker) (n : ℕ) :
    builder.InFrame (builder.followStep^[n] walker) := by
  induction n with
  | zero => exact inFrame
  | succ n ih =>
      rw [Function.iterate_succ_apply']
      exact ih.followStep nonempty

theorem finite_poses (builder : NavigationGraphBuilder) :
    {pose | ∃ walker, builder.InFrame walker ∧ walker.pose = pose}.Finite := by
  apply (Set.finite_Icc ((-1, -1, -1, -1) : ℤ × ℤ × ℤ × ℤ)
    (builder.image.width, builder.image.height, 1, 1)).subset
  rintro _ ⟨walker, inFrame, rfl⟩
  have heading := inFrame.heading
  simp only [Walker.pose, Set.mem_Icc, Prod.mk_le_mk]
  refine ⟨⟨inFrame.left, inFrame.top, ?_, ?_⟩, inFrame.right, inFrame.bottom, ?_, ?_⟩ <;> omega

/-- A walker in the frame comes back to where it is. -/
theorem exists_iterate_pose (nonempty : 0 < builder.image.width ∧ 0 < builder.image.height)
    (inFrame : builder.InFrame walker) :
    ∃ n, (builder.followStep^[n + 1] walker).pose = walker.pose := by
  have walk := iterate_followStep_inFrame nonempty inFrame
  rcases (finite_poses builder).exists_lt_map_eq_of_forall_mem
    fun n => Set.mem_ofPred.mpr ⟨builder.followStep^[n] walker, walk n, rfl⟩ with
    ⟨i, j, earlier, same⟩
  rcases Nat.exists_eq_add_of_lt earlier with ⟨n, rfl⟩
  refine ⟨n, ?_⟩
  -- The two walks to the same pose are taken back step by step.
  induction i with
  | zero => simpa using same.symm
  | succ i ih =>
      apply ih (by omega)
      apply @pose_followStep_inj builder _ _ (walk _).heading (walk _).heading
      rw [← Function.iterate_succ_apply' builder.followStep,
        ← Function.iterate_succ_apply' builder.followStep, same]
      congr 2
      omega

section Ends

variable {startX startY wall : ℤ}

/-- The last foreground pixel of the row to the right of the start. -/
structure IsWall (builder : NavigationGraphBuilder) (startX startY wall : ℤ) : Prop where
  right : startX ≤ wall
  fore : ∀ x, startX ≤ x → x ≤ wall → builder.getPixelColor x startY = builder.foreColor
  back : builder.getPixelColor (wall + 1) startY ≠ builder.foreColor

/-- The walkers of the loop of `followWalls`, from the first step to the return. -/
inductive Reached (builder : NavigationGraphBuilder) (wall startY : ℤ) : Walker → Prop
  | first : Reached builder wall startY (builder.followStep ⟨wall, startY, 0, 1, []⟩)
  | step {walker : Walker} (reached : Reached builder wall startY walker)
      (away : walker.x ≠ wall ∨ walker.y ≠ startY) :
      Reached builder wall startY (builder.followStep walker)

theorem IsWall.unique {wall' : ℤ} (isWall : builder.IsWall startX startY wall)
    (isWall' : builder.IsWall startX startY wall') : wall = wall' := by
  have right := isWall.right
  have right' := isWall'.right
  rcases lt_trichotomy wall wall' with less | same | more
  · exact absurd (isWall'.fore _ (by omega) (by omega)) isWall.back
  · exact same
  · exact absurd (isWall.fore _ (by omega) (by omega)) isWall'.back

/-- The first loop only passes foreground pixels. -/
theorem moveRight_fore {fuel : ℕ}
    (start : builder.getPixelColor startX startY = builder.foreColor)
    (runs : builder.moveRight startX startY fuel = some wall) :
    startX ≤ wall ∧ ∀ x, startX ≤ x → x ≤ wall →
      builder.getPixelColor x startY = builder.foreColor := by
  refine @whileLoop_invariant _ _ _ (fun last => startX ≤ last ∧ ∀ x, startX ≤ x → x ≤ last →
    builder.getPixelColor x startY = builder.foreColor) ?_ _ _ _ ⟨le_rfl, ?_⟩ runs
  · intro last next passed continues stepped
    rcases Option.some.inj stepped with rfl
    refine ⟨by omega, fun x after before => ?_⟩
    rcases before.lt_or_eq with less | rfl
    · exact passed.2 x after (by omega)
    · exact of_decide_eq_true continues
  · intro x after before
    rwa [le_antisymm before after]

/-- The first loop ends at the wall. -/
theorem moveRight_ends (colours : builder.backColor ≠ builder.foreColor)
    (start : builder.getPixelColor startX startY = builder.foreColor) :
    ∃ wall, builder.IsWall startX startY wall ∧
      ∃ bound, ∀ fuel, bound < fuel → builder.moveRight startX startY fuel = some wall := by
  have inside := inside_of_getPixelColor colours start
  have iterate (n : ℕ) : (fun x : ℤ => x + 1)^[n] startX = startX + n := by
    induction n with
    | zero => simp
    | succ n ih =>
        rw [Function.iterate_succ_apply', ih]
        push_cast
        ring
  rcases @whileLoop_iterate _
    (fun x => builder.getPixelColor (x + 1) startY = builder.foreColor) (fun x => x + 1)
    (builder.image.width - startX).toNat startX (by
      rw [iterate, decide_eq_false_iff_not, getPixelColor_outside (by omega)]
      exact colours) with ⟨wall, runs, stops⟩
  have passed := moveRight_fore start (runs _ (Nat.lt_succ_self _))
  exact ⟨wall, ⟨passed.1, passed.2, of_decide_eq_false stops⟩, _, runs⟩

/-- `followWalls` returns, with the path of the walker that is back at the wall. -/
theorem followWalls_ends (colours : builder.backColor ≠ builder.foreColor)
    (start : builder.getPixelColor startX startY = builder.foreColor)
    (isWall : builder.IsWall startX startY wall) :
    ∃ final, builder.Reached wall startY final ∧ final.x = wall ∧ final.y = startY ∧
      ∃ bound, ∀ fuel, bound < fuel →
        builder.followWalls startX startY fuel = some final.path := by
  rcases moveRight_ends colours start with ⟨wall', isWall', bound, moves⟩
  rcases isWall.unique isWall' with rfl
  have inside := inside_of_getPixelColor colours (isWall.fore wall isWall.right le_rfl)
  have inFrame : builder.InFrame ⟨wall, startY, 0, 1, []⟩ := by
    constructor <;> simp <;> omega
  rcases exists_iterate_pose (by omega) inFrame with ⟨n, returns⟩
  simp only [Walker.pose, Prod.mk.injEq] at returns
  rcases @whileLoop_iterate _
    (fun walker => walker.x ≠ wall ∨ walker.y ≠ startY) builder.followStep n
    (builder.followStep ⟨wall, startY, 0, 1, []⟩) (by
      rw [← Function.iterate_succ_apply, decide_eq_false_iff_not, not_or, not_not, not_not]
      exact ⟨returns.1, returns.2.1⟩) with ⟨final, runs, stops⟩
  simp only [decide_eq_false_iff_not, not_or, not_not] at stops
  refine ⟨final, ?_, stops.1, stops.2, max bound n, fun fuel enough => ?_⟩
  · refine whileLoop_invariant ?_ .first (runs _ (Nat.lt_succ_self _))
    intro walker next reached away stepped
    rcases Option.some.inj stepped with rfl
    exact .step reached (of_decide_eq_true away)
  · rw [followWalls, moves fuel (by omega), Option.bind_eq_bind, Option.bind_some,
      runs fuel (by omega)]
    rfl

end Ends

end NavigationGraphBuilder

end MrsOptimization.Navigation
