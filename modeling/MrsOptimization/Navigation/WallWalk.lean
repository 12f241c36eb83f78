import Mathlib.Tactic.IntervalCases
import MrsOptimization.Library.Cycles
import MrsOptimization.Navigation.WalkReturns

/-!
# The walk along the walls

The walker of `followWalls` keeps the wall on its left. It stays on the foreground as long
as the corner it turns at is one of this wall; a corner across a corridor, a dead end or a
diagonal gap sends it into the background.
-/

namespace MrsOptimization.Navigation

namespace NavigationGraphBuilder

section Sight

variable (builder : NavigationGraphBuilder)

/-- The image has no other colours than the background and the foreground. -/
def TwoColours : Prop :=
  builder.backColor ≠ builder.foreColor ∧ ∀ x y,
    builder.getPixelColor x y = builder.backColor ∨ builder.getPixelColor x y = builder.foreColor

/-- The pixel so far to the right of the walker and ahead of it is foreground. -/
def Sees (walker : Walker) (right ahead : ℤ) : Prop :=
  builder.getPixelColor (walker.x - right * walker.dy + ahead * walker.dx)
    (walker.y + right * walker.dx + ahead * walker.dy) = builder.foreColor

def AtCorner (x y : ℤ) : Prop :=
  builder.isInnerCorner x y = true ∨ builder.isOuterCorner x y = true

/-- The corner at which the next step turns, if it turns, is one of the wall on the left. -/
structure Clear (walker : Walker) : Prop where
  wallTurnsLeft : builder.Sees walker (-1) 0 →
    builder.Sees walker 0 1 ∨ builder.Sees walker 1 0 ∨ builder.Sees walker 1 1
  wallGoesOn : ¬builder.Sees walker (-1) 0 → builder.Sees walker 0 1 → builder.Sees walker 1 0 →
    builder.Sees walker 1 1 ∧ builder.Sees walker 1 (-1)
  wallTurnsRight : ¬builder.Sees walker (-1) 0 → ¬builder.Sees walker 0 1 →
    builder.Sees walker 1 0 ∧ ¬builder.Sees walker (-1) 1

/-- The walker stands on the foreground, came from there and has the wall on its left. -/
structure AlongWall (walker : Walker) : Prop where
  here : builder.Sees walker 0 0
  behind : builder.Sees walker 0 (-1)
  wall : ¬builder.Sees walker (-1) 0 ∨ ¬builder.Sees walker (-1) (-1)

/-- The walker at the wall, which still faces down, starts along the wall and not across the
one behind it. -/
structure StartsClear (walker : Walker) : Prop where
  corner : builder.isInnerCorner walker.x walker.y = true →
    builder.Sees walker 1 0 ∧ (¬builder.Sees walker 1 1 ∨ ¬builder.Sees walker 0 1)
  straight : builder.isInnerCorner walker.x walker.y = false →
    builder.isOuterCorner walker.x walker.y = false ∧ builder.Sees walker 0 1

/-- The top right corner of a room. -/
def TopRight (walker : Walker) : Prop :=
  ¬builder.Sees walker 0 (-1) ∧ ¬builder.Sees walker (-1) (-1) ∧
    builder.Sees walker 1 0 ∧ builder.Sees walker 0 1 ∧ builder.Sees walker 1 1

/-- The walk from a start pixel starts along the wall, can return in a column if it starts in one,
and only meets corners of this wall. -/
structure WalkClear (startY wall : ℤ) : Prop where
  starts : builder.StartsClear ⟨wall, startY, 0, 1, []⟩
  returns : ¬builder.AtCorner wall startY → builder.Sees ⟨wall, startY, 0, 1, []⟩ 0 (-1) ∨
    ¬builder.Sees ⟨wall, startY, 0, 1, []⟩ 1 0
  corners : ∀ walker, builder.Reached wall startY walker →
    walker.x ≠ wall ∨ walker.y ≠ startY → builder.Clear walker

/-- `followWalls` returns a path, all visited pixels and vertices are foreground, and consecutive
vertices of the closed path share a row or a column. -/
structure FollowsWalls (startX startY wall : ℤ) (path : List MyPoint) : Prop where
  ends : ∃ bound, ∀ fuel, bound < fuel → builder.moveRight startX startY fuel = some wall ∧
    builder.followWalls startX startY fuel = some path
  toWall : ∀ x, startX ≤ x → x ≤ wall → builder.getPixelColor x startY = builder.foreColor
  visited : ∀ walker, builder.Reached wall startY walker →
    builder.getPixelColor walker.x walker.y = builder.foreColor
  vertices : ∀ p ∈ path, builder.getPixelColor p.x p.y = builder.foreColor
  aligned : ∀ e ∈ edges path, e.1.x = e.2.x ∨ e.1.y = e.2.y

end Sight

variable {builder : NavigationGraphBuilder} {walker : Walker}

theorem not_sees_iff (colours : builder.TwoColours) {right ahead : ℤ} :
    ¬builder.Sees walker right ahead ↔
      builder.getPixelColor (walker.x - right * walker.dy + ahead * walker.dx)
        (walker.y + right * walker.dx + ahead * walker.dy) = builder.backColor := by
  rw [Sees]
  constructor
  · exact fun other => (colours.2 _ _).resolve_right other
  · exact fun back fore => colours.1 (back.symm.trans fore)

/-- An inner corner, seen from the walker. -/
theorem isInnerCorner_iff (colours : builder.TwoColours) (heads : walker.Heads) :
    builder.isInnerCorner walker.x walker.y = true ↔
      ¬builder.Sees walker 0 1 ∧ (¬builder.Sees walker (-1) 0 ∧ ¬builder.Sees walker (-1) 1 ∨
        ¬builder.Sees walker 1 0 ∧ ¬builder.Sees walker 1 1) ∨
      ¬builder.Sees walker 0 (-1) ∧
        (¬builder.Sees walker (-1) 0 ∧ ¬builder.Sees walker (-1) (-1) ∨
          ¬builder.Sees walker 1 0 ∧ ¬builder.Sees walker 1 (-1)) := by
  rcases walker with ⟨x, y, dx, dy, path⟩
  simp only [not_sees_iff colours, isInnerCorner, isCorner, decide_eq_true_eq]
  rcases heads with ⟨rfl, rfl | rfl⟩ | ⟨rfl, rfl | rfl⟩ <;>
    simp [sub_eq_add_neg] <;> grind

/-- An outer corner, seen from the walker. -/
theorem isOuterCorner_iff (colours : builder.TwoColours) (heads : walker.Heads) :
    builder.isOuterCorner walker.x walker.y = true ↔
      builder.Sees walker 0 1 ∧ (builder.Sees walker (-1) 0 ∧ ¬builder.Sees walker (-1) 1 ∨
        builder.Sees walker 1 0 ∧ ¬builder.Sees walker 1 1) ∨
      builder.Sees walker 0 (-1) ∧ (builder.Sees walker (-1) 0 ∧ ¬builder.Sees walker (-1) (-1) ∨
        builder.Sees walker 1 0 ∧ ¬builder.Sees walker 1 (-1)) := by
  rcases walker with ⟨x, y, dx, dy, path⟩
  simp only [not_sees_iff colours]
  simp only [isOuterCorner, isCorner, decide_eq_true_eq, Sees]
  rcases heads with ⟨rfl, rfl | rfl⟩ | ⟨rfl, rfl | rfl⟩ <;>
    simp [sub_eq_add_neg] <;> grind

theorem sees_turnRight (heads : walker.Heads) (right ahead : ℤ) :
    builder.Sees walker.turnRight.addPoint.step right ahead ↔
      builder.Sees walker (1 + ahead) (-right) := by
  simp only [Sees, heads.turnRight, Walker.addPoint, Walker.step]
  ring_nf

theorem sees_turnLeft (heads : walker.Heads) (right ahead : ℤ) :
    builder.Sees walker.turnLeft.addPoint.step right ahead ↔
      builder.Sees walker (-(1 + ahead)) right := by
  simp only [Sees, heads.turnLeft, Walker.addPoint, Walker.step]
  ring_nf

theorem sees_step (right ahead : ℤ) :
    builder.Sees walker.step right ahead ↔ builder.Sees walker right (1 + ahead) := by
  simp only [Sees, Walker.step]
  ring_nf

/-- Where the corner is one of the wall on the left, the walker stays along this wall. -/
theorem AlongWall.followStep (colours : builder.TwoColours) (heads : walker.Heads)
    (along : builder.AlongWall walker) (clear : builder.Clear walker) :
    builder.AlongWall (builder.followStep walker) := by
  have inner := isInnerCorner_iff colours heads
  have outer := isOuterCorner_iff colours heads
  rcases along with ⟨here, behind, wall⟩
  by_cases left : builder.Sees walker (-1) 0
  · have wallBehind : ¬builder.Sees walker (-1) (-1) := wall.resolve_left (not_not_intro left)
    have notInner : ¬builder.isInnerCorner walker.x walker.y := by
      simp only [inner, left, behind, not_true_eq_false, false_and, false_or, or_false]
      rintro ⟨ahead, right, diagonal⟩
      exact (clear.wallTurnsLeft left).elim ahead (Or.rec right diagonal)
    have isOuter : builder.isOuterCorner walker.x walker.y :=
      outer.mpr (.inr ⟨behind, .inl ⟨left, wallBehind⟩⟩)
    rw [NavigationGraphBuilder.followStep, if_neg notInner, if_pos isOuter]
    exact ⟨(sees_turnLeft heads 0 0).mpr left, (sees_turnLeft heads 0 (-1)).mpr here,
      .inl (mt (sees_turnLeft heads (-1) 0).mp wallBehind)⟩
  by_cases ahead : builder.Sees walker 0 1
  · have straight := clear.wallGoesOn left ahead
    have notInner : ¬builder.isInnerCorner walker.x walker.y := by
      simp [inner, ahead, behind]
    have notOuter : ¬builder.isOuterCorner walker.x walker.y := by
      simp only [outer, left, ahead, behind, false_and, false_or, true_and]
      rintro (⟨right, diagonal⟩ | ⟨right, diagonal⟩)
      · exact diagonal (straight right).1
      · exact diagonal (straight right).2
    rw [NavigationGraphBuilder.followStep, if_neg notInner, if_neg notOuter]
    exact ⟨(sees_step 0 0).mpr ahead, (sees_step 0 (-1)).mpr here,
      .inr (mt (sees_step (-1) (-1)).mp left)⟩
  · have closed := clear.wallTurnsRight left ahead
    have isInner : builder.isInnerCorner walker.x walker.y :=
      inner.mpr (.inl ⟨ahead, .inl ⟨left, closed.2⟩⟩)
    rw [NavigationGraphBuilder.followStep, if_pos isInner]
    exact ⟨(sees_turnRight heads 0 0).mpr closed.1, (sees_turnRight heads 0 (-1)).mpr here,
      .inr (mt (sees_turnRight heads (-1) (-1)).mp ahead)⟩

/-- A walker along a wall only stays on the foreground where the corner is one of this wall. -/
theorem AlongWall.clear (colours : builder.TwoColours) (heads : walker.Heads)
    (along : builder.AlongWall walker)
    (next : builder.Sees (builder.followStep walker) 0 0) : builder.Clear walker := by
  have inner := isInnerCorner_iff colours heads
  have outer := isOuterCorner_iff colours heads
  rcases along with ⟨here, behind, wall⟩
  rw [NavigationGraphBuilder.followStep] at next
  split at next
  · rw [sees_turnRight heads] at next
    norm_num at next
    constructor <;> grind
  · split at next
    · rw [sees_turnLeft heads] at next
      norm_num at next
      constructor <;> grind
    · rw [sees_step] at next
      norm_num at next
      constructor <;> grind

/-- A walker at the wall starts along it. -/
theorem StartsClear.followStep (heads : walker.Heads)
    (here : builder.Sees walker 0 0) (wall : ¬builder.Sees walker (-1) 0)
    (clear : builder.StartsClear walker) : builder.AlongWall (builder.followStep walker) := by
  rw [NavigationGraphBuilder.followStep]
  by_cases inner : builder.isInnerCorner walker.x walker.y = true
  · rcases clear.corner inner with ⟨right, below⟩
    rw [if_pos inner]
    exact ⟨(sees_turnRight heads 0 0).mpr right, (sees_turnRight heads 0 (-1)).mpr here,
      below.imp (mt (sees_turnRight heads (-1) 0).mp) (mt (sees_turnRight heads (-1) (-1)).mp)⟩
  · rcases clear.straight (Bool.eq_false_of_not_eq_true inner) with ⟨notOuter, ahead⟩
    rw [if_neg inner, if_neg (by simp [notOuter])]
    exact ⟨(sees_step 0 0).mpr ahead, (sees_step 0 (-1)).mpr here,
      .inr (mt (sees_step (-1) (-1)).mp wall)⟩

section Trace

variable {wall startY : ℤ}

/-- What a path tells of the way to the walker: straight down from the wall so far, or along rows
and columns from its first vertex to its last and straight on from there. -/
inductive Traced (builder : NavigationGraphBuilder) (wall startY : ℤ) (walker : Walker) : Prop
  | down (notCorner : ¬builder.AtCorner wall startY)
      (empty : walker.path = []) (column : walker.x = wall) (below : startY < walker.y)
      (heading : walker.dx = 0 ∧ walker.dy = 1)
  | turned (first last : MyPoint) (init : List MyPoint) (starts : walker.path.head? = some first)
      (shape : walker.path = init ++ [last]) (column : first.x = wall)
      (atStart : builder.AtCorner wall startY → first.y = startY)
      (below : ¬builder.AtCorner wall startY → startY < first.y)
      (aligned : ∀ e ∈ chain walker.path, e.1.x = e.2.x ∨ e.1.y = e.2.y) (k : ℤ) (positive : 0 < k)
      (since : walker.x = last.x + k * walker.dx ∧ walker.y = last.y + k * walker.dy)

/-- A step goes straight on, or leaves a vertex at a corner and goes straight from there. -/
theorem followStep_shape (walker : Walker) :
    ¬builder.AtCorner walker.x walker.y ∧ builder.followStep walker = walker.step ∨
      builder.AtCorner walker.x walker.y ∧
        (builder.followStep walker).path =
          walker.path ++ [⟨walker.path.length, walker.x, walker.y⟩] ∧
        (builder.followStep walker).x = walker.x + (builder.followStep walker).dx ∧
        (builder.followStep walker).y = walker.y + (builder.followStep walker).dy := by
  rcases turnRight_shape walker with ⟨_, _, right⟩
  rcases turnLeft_shape walker with ⟨_, _, left⟩
  rw [followStep]
  split
  · rename_i inner
    exact .inr ⟨.inl inner, by simp [right, Walker.addPoint, Walker.step]⟩
  · rename_i notInner
    split
    · rename_i outer
      exact .inr ⟨.inr outer, by simp [left, Walker.addPoint, Walker.step]⟩
    · rename_i notOuter
      exact .inl ⟨not_or.mpr ⟨notInner, notOuter⟩, rfl⟩

theorem traced_first (builder : NavigationGraphBuilder) (wall startY : ℤ) :
    builder.Traced wall startY (builder.followStep ⟨wall, startY, 0, 1, []⟩) := by
  rcases builder.followStep_shape ⟨wall, startY, 0, 1, []⟩ with
    ⟨notCorner, straight⟩ | ⟨corner, path, atX, atY⟩
  · rw [straight]
    exact .down notCorner rfl (by simp [Walker.step]) (by simp [Walker.step]) ⟨rfl, rfl⟩
  · exact .turned ⟨0, wall, startY⟩ ⟨0, wall, startY⟩ [] (by simp [path]) path rfl (fun _ => rfl)
      (absurd corner) (by simp [path]) 1 one_pos (by simpa using ⟨atX, atY⟩)

theorem Traced.followStep (heads : walker.Heads) (traced : builder.Traced wall startY walker) :
    builder.Traced wall startY (builder.followStep walker) := by
  rcases builder.followStep_shape walker with ⟨-, straight⟩ | ⟨corner, path, atX, atY⟩
  · rw [straight]
    cases traced with
    | down notCorner empty column below heading =>
        exact .down notCorner empty (by simp [Walker.step, column, heading])
          (by simp only [Walker.step, heading]; omega) heading
    | turned first last init starts shape column atStart below aligned k positive since =>
        refine .turned first last init starts shape column atStart below aligned (k + 1)
          (by omega) ?_
        simp only [Walker.step, since]
        constructor <;> ring
  · have since : (builder.followStep walker).x = walker.x + 1 * (builder.followStep walker).dx ∧
        (builder.followStep walker).y = walker.y + 1 * (builder.followStep walker).dy := by
      simpa using ⟨atX, atY⟩
    cases traced with
    | down notCorner empty column below heading =>
        exact .turned ⟨walker.path.length, walker.x, walker.y⟩ _ _ (by simp [path, empty]) path
          column (absurd · notCorner) (fun _ => below) (by simp [path, empty]) 1 one_pos since
    | turned first last init starts shape column atStart below aligned k positive since' =>
        refine .turned first _ _ ?_ path column atStart below ?_ 1 one_pos since
        · simp [path, starts]
        · rw [path, shape, List.append_assoc, List.singleton_append, chain_append, ← shape]
          intro e eMem
          rcases List.mem_append.mp eMem with old | new
          · exact aligned e old
          · rcases List.mem_singleton.mp new with rfl
            rcases heads with ⟨dx, -⟩ | ⟨dy, -⟩
            · exact .inl (by simp [since', dx])
            · exact .inr (by simp [since', dy])

theorem edges_eq {path init : List MyPoint} {first last : MyPoint}
    (starts : path.head? = some first) (shape : path = init ++ [last]) :
    edges path = chain path ++ [(last, first)] := by
  rcases List.head?_eq_some_iff.mp starts with ⟨rest, rfl⟩
  rw [edges, ← List.cons_append, shape, List.append_assoc, List.singleton_append, chain_append]
  rfl

/-- The closed path of a walker that is back at the wall keeps to rows and columns if and only if
the walker comes in the direction of the first edge, or starts at a vertex. -/
theorem Traced.aligned_iff (heads : walker.Heads) (traced : builder.Traced wall startY walker)
    (atX : walker.x = wall) (atY : walker.y = startY) :
    (∀ e ∈ edges walker.path, e.1.x = e.2.x ∨ e.1.y = e.2.y) ↔
      (¬builder.AtCorner wall startY → walker.dx = 0) := by
  cases traced with
  | down notCorner empty column below heading => omega
  | turned first last init starts shape column atStart below aligned k positive since =>
      rw [edges_eq starts shape]
      constructor
      · intro closed notCorner
        have closing : last.x = first.x ∨ last.y = first.y := closed (last, first) (by simp)
        have lower := below notCorner
        rcases heads with ⟨dx, -⟩ | ⟨dy, dx | dx⟩
        · exact dx
        all_goals
          simp only [dy, dx] at since
          omega
      · intro vertical e eMem
        rcases List.mem_append.mp eMem with old | new
        · exact aligned e old
        · rcases List.mem_singleton.mp new with rfl
          change last.x = first.x ∨ last.y = first.y
          by_cases corner : builder.AtCorner wall startY
          · have same := atStart corner
            rcases heads with ⟨dx, -⟩ | ⟨dy, -⟩
            · simp only [dx] at since
              omega
            · simp only [dy] at since
              omega
          · simp only [vertical corner] at since
            omega

/-- How a walker along the wall comes back to a start that is no vertex. -/
theorem AlongWall.vertical_iff (colours : builder.TwoColours) (heads : walker.Heads)
    (along : builder.AlongWall walker)
    (wall : builder.getPixelColor (walker.x + 1) walker.y ≠ builder.foreColor)
    (notCorner : ¬builder.AtCorner walker.x walker.y) :
    walker.dx = 0 ↔ builder.Sees ⟨walker.x, walker.y, 0, 1, []⟩ 0 (-1) ∨
      ¬builder.Sees ⟨walker.x, walker.y, 0, 1, []⟩ 1 0 := by
  rcases along with ⟨here, behind, wallLeft⟩
  have notOuter : ¬(builder.Sees walker 0 (-1) ∧ builder.Sees walker (-1) 0 ∧
      ¬builder.Sees walker (-1) (-1)) := by
    rintro ⟨back, left, diagonal⟩
    exact notCorner (.inr ((isOuterCorner_iff colours heads).mpr
      (.inr ⟨back, .inl ⟨left, diagonal⟩⟩)))
  rcases walker with ⟨x, y, dx, dy, path⟩
  rcases heads with ⟨rfl, rfl | rfl⟩ | ⟨rfl, rfl | rfl⟩ <;>
    simp only [Sees] at * <;> norm_num at * <;> tauto

end Trace

section Walk

variable {startX startY wall : ℤ}

theorem Reached.heads (reached : builder.Reached wall startY walker) : walker.Heads := by
  induction reached with
  | first => exact heads_followStep (.inl ⟨rfl, .inl rfl⟩)
  | step _ _ ih => exact heads_followStep ih

theorem Reached.traced (reached : builder.Reached wall startY walker) :
    builder.Traced wall startY walker := by
  induction reached with
  | first => exact traced_first builder wall startY
  | step earlier _ ih => exact ih.followStep earlier.heads

/-- The vertices of a path are pixels that the walker has visited. -/
theorem Reached.vertices (reached : builder.Reached wall startY walker)
    (start : builder.getPixelColor wall startY = builder.foreColor)
    (visited : ∀ walker, builder.Reached wall startY walker →
      builder.getPixelColor walker.x walker.y = builder.foreColor) :
    ∀ p ∈ walker.path, builder.getPixelColor p.x p.y = builder.foreColor := by
  have added {walker : Walker} (here : builder.getPixelColor walker.x walker.y = builder.foreColor)
      (old : ∀ p ∈ walker.path, builder.getPixelColor p.x p.y = builder.foreColor) :
      ∀ p ∈ (builder.followStep walker).path,
        builder.getPixelColor p.x p.y = builder.foreColor := by
    intro p pMem
    rcases builder.followStep_path walker with same | new
    · exact old p (same ▸ pMem)
    · rw [new] at pMem
      rcases List.mem_append.mp pMem with earlier | last
      · exact old p earlier
      · rwa [List.mem_singleton.mp last]
  induction reached with
  | first => exact added start (by simp)
  | step earlier _ ih => exact added (visited _ earlier) ih

theorem sees_here : builder.Sees walker 0 0 ↔
    builder.getPixelColor walker.x walker.y = builder.foreColor := by
  simp [Sees]

/-- From a clear start on, every walker that only meets corners of the wall stays along it. -/
theorem Reached.alongWall (colours : builder.TwoColours)
    (isWall : builder.IsWall startX startY wall)
    (starts : builder.StartsClear ⟨wall, startY, 0, 1, []⟩)
    (corners : ∀ walker, builder.Reached wall startY walker →
      walker.x ≠ wall ∨ walker.y ≠ startY → builder.AlongWall walker → builder.Clear walker)
    (reached : builder.Reached wall startY walker) : builder.AlongWall walker := by
  induction reached with
  | first =>
      refine starts.followStep (.inl ⟨rfl, .inl rfl⟩) ?_ ?_
      · simpa [Sees] using isWall.fore wall isWall.right le_rfl
      · simpa [Sees] using isWall.back
  | step earlier away ih =>
      exact ih.followStep colours earlier.heads (corners _ earlier away ih)

/-- The walker along the wall that is back at the start closes a path of rows and columns if and
only if it can return in the column in which it starts. -/
theorem AlongWall.aligned_iff (colours : builder.TwoColours)
    (isWall : builder.IsWall startX startY wall) (reached : builder.Reached wall startY walker)
    (along : builder.AlongWall walker) (atX : walker.x = wall) (atY : walker.y = startY) :
    (∀ e ∈ edges walker.path, e.1.x = e.2.x ∨ e.1.y = e.2.y) ↔
      (¬builder.AtCorner wall startY → builder.Sees ⟨wall, startY, 0, 1, []⟩ 0 (-1) ∨
        ¬builder.Sees ⟨wall, startY, 0, 1, []⟩ 1 0) := by
  rw [reached.traced.aligned_iff reached.heads atX atY]
  refine forall_congr' fun notCorner => ?_
  subst atX atY
  exact along.vertical_iff colours reached.heads isWall.back notCorner

/-- A clear walk follows the walls. -/
theorem WalkClear.followsWalls (colours : builder.TwoColours)
    (start : builder.getPixelColor startX startY = builder.foreColor)
    (isWall : builder.IsWall startX startY wall) (clear : builder.WalkClear startY wall) :
    ∃ path, builder.FollowsWalls startX startY wall path := by
  rcases moveRight_ends colours.1 start with ⟨wall', isWall', bound, moves⟩
  rcases isWall.unique isWall' with rfl
  rcases followWalls_ends colours.1 start isWall with ⟨final, reached, atX, atY, bound', follows⟩
  have along {walker : Walker} (reached : builder.Reached wall startY walker) :
      builder.AlongWall walker :=
    reached.alongWall colours isWall clear.starts fun _ earlier away _ =>
      clear.corners _ earlier away
  have visited (walker : Walker) (reached : builder.Reached wall startY walker) :
      builder.getPixelColor walker.x walker.y = builder.foreColor :=
    sees_here.mp (along reached).here
  refine ⟨final.path, ⟨max bound bound', fun fuel enough => ?_⟩, isWall.fore, visited,
    reached.vertices (isWall.fore wall isWall.right le_rfl) visited, ?_⟩
  · exact ⟨moves fuel (by omega), follows fuel (by omega)⟩
  · exact ((along reached).aligned_iff colours isWall reached atX atY).mpr clear.returns

/-- Unless it starts at the top right corner of a room, the first step only stays on the
foreground if it starts along the wall. -/
theorem startsClear_of_visited (colours : builder.TwoColours)
    (isWall : builder.IsWall startX startY wall)
    (notTopRight : ¬builder.TopRight ⟨wall, startY, 0, 1, []⟩)
    (visited : builder.Sees (builder.followStep ⟨wall, startY, 0, 1, []⟩) 0 0) :
    builder.StartsClear ⟨wall, startY, 0, 1, []⟩ := by
  have heads : Walker.Heads ⟨wall, startY, 0, 1, []⟩ := .inl ⟨rfl, .inl rfl⟩
  have noLeft : ¬builder.Sees ⟨wall, startY, 0, 1, []⟩ (-1) 0 := by
    simpa [Sees] using isWall.back
  rw [followStep] at visited
  constructor
  · intro inner
    rw [if_pos inner, sees_turnRight heads] at visited
    norm_num at visited
    refine ⟨visited, ?_⟩
    by_contra both
    rw [not_or, not_not, not_not] at both
    rcases (isInnerCorner_iff colours heads).mp inner with ⟨noAhead, -⟩ | ⟨noBehind, corner⟩
    · exact noAhead both.2
    · rcases corner with ⟨-, diagonal⟩ | ⟨noRight, -⟩
      · exact notTopRight ⟨noBehind, diagonal, visited, both.2, both.1⟩
      · exact noRight visited
  · intro notInner
    rw [if_neg (by simp [notInner])] at visited
    split at visited
    · rw [sees_turnLeft heads] at visited
      norm_num at visited
      exact absurd visited noLeft
    · rename_i notOuter
      rw [sees_step] at visited
      norm_num at visited
      exact ⟨Bool.eq_false_of_not_eq_true notOuter, visited⟩

/-- A walk that follows the walls is clear, unless it starts at the top right corner of a room. -/
theorem FollowsWalls.walkClear {path : List MyPoint} (colours : builder.TwoColours)
    (start : builder.getPixelColor startX startY = builder.foreColor)
    (isWall : builder.IsWall startX startY wall)
    (notTopRight : ¬builder.TopRight ⟨wall, startY, 0, 1, []⟩)
    (follows : builder.FollowsWalls startX startY wall path) : builder.WalkClear startY wall := by
  have visited {walker : Walker} (reached : builder.Reached wall startY walker) :
      builder.Sees walker 0 0 := sees_here.mpr (follows.visited walker reached)
  have starts := startsClear_of_visited colours isWall notTopRight (visited .first)
  have corners (walker : Walker) (reached : builder.Reached wall startY walker)
      (away : walker.x ≠ wall ∨ walker.y ≠ startY) (along : builder.AlongWall walker) :
      builder.Clear walker :=
    along.clear colours reached.heads (visited (.step reached away))
  have along {walker : Walker} (reached : builder.Reached wall startY walker) :
      builder.AlongWall walker := reached.alongWall colours isWall starts corners
  rcases followWalls_ends colours.1 start isWall with ⟨final, reached, atX, atY, bound, runs⟩
  rcases follows.ends with ⟨bound', ends⟩
  have same : final.path = path := Option.some.inj
    ((runs (max bound bound' + 1) (by omega)).symm.trans (ends (max bound bound' + 1) (by omega)).2)
  refine ⟨starts, ?_, fun walker earlier away => corners walker earlier away (along earlier)⟩
  rw [← (along reached).aligned_iff colours isWall reached atX atY, same]
  exact follows.aligned

/-- `followWalls` always ends. Where its walk is clear, it follows the walls, and unless it starts
at the top right corner of a room, it follows them only there. -/
theorem followWalls_onForeground (colours : builder.TwoColours)
    (start : builder.getPixelColor startX startY = builder.foreColor) :
    ∃ wall, builder.IsWall startX startY wall ∧
      (∃ path bound, ∀ fuel, bound < fuel →
        builder.followWalls startX startY fuel = some path) ∧
      (builder.WalkClear startY wall → ∃ path, builder.FollowsWalls startX startY wall path) ∧
      (¬builder.TopRight ⟨wall, startY, 0, 1, []⟩ →
        (∃ path, builder.FollowsWalls startX startY wall path) →
          builder.WalkClear startY wall) := by
  rcases moveRight_ends colours.1 start with ⟨wall, isWall, -⟩
  rcases followWalls_ends colours.1 start isWall with ⟨final, -, -, -, ends⟩
  refine ⟨wall, isWall, ⟨final.path, ends⟩, fun clear => clear.followsWalls colours start isWall,
    ?_⟩
  rintro notTopRight ⟨path, follows⟩
  exact follows.walkClear colours start isWall notTopRight

theorem FollowsWalls.isWall {path : List MyPoint}
    (colours : builder.backColor ≠ builder.foreColor)
    (start : builder.getPixelColor startX startY = builder.foreColor)
    (follows : builder.FollowsWalls startX startY wall path) :
    builder.IsWall startX startY wall := by
  rcases moveRight_ends colours start with ⟨wall', isWall', bound, moves⟩
  rcases follows.ends with ⟨bound', ends⟩
  have same : wall' = wall := Option.some.inj ((moves (max bound bound' + 1) (by omega)).symm.trans
    (ends (max bound bound' + 1) (by omega)).1)
  exact same ▸ isWall'

end Walk

section Halls

/-- Three by three free pixels. -/
def hall : NavigationGraphBuilder where
  image := ⟨3, 3, fun _ => .white⟩

theorem hall_twoColours : hall.TwoColours := by
  refine ⟨by decide, fun x y => ?_⟩
  rw [getPixelColor]
  split
  · exact .inl rfl
  · exact .inr rfl

theorem hall_walk {walker : Walker} (reached : hall.Reached 2 1 walker) :
    ∃ n < 8, walker = hall.followStep^[n + 1] ⟨2, 1, 0, 1, []⟩ := by
  induction reached with
  | first => exact ⟨0, by decide, rfl⟩
  | step _ away ih =>
      rcases ih with ⟨n, less, rfl⟩
      refine ⟨n + 1, ?_, (Function.iterate_succ_apply' _ _ _).symm⟩
      by_contra last
      obtain rfl : n = 7 := by omega
      revert away
      decide +kernel

/-- From its middle row the hall is walked along the walls. -/
theorem followWalls_onForeground_hall : ∃ path, hall.FollowsWalls 0 1 2 path := by
  have isWall : hall.IsWall 0 1 2 := by
    refine ⟨by decide, fun x after before => ?_, by decide⟩
    interval_cases x <;> rfl
  rcases followWalls_onForeground hall_twoColours
    (rfl : hall.getPixelColor 0 1 = hall.foreColor) with ⟨wall, isWall', -, follows, -⟩
  rcases isWall.unique isWall' with rfl
  apply follows
  refine ⟨⟨?_, ?_⟩, ?_, ?_⟩
  · simp only [Sees]
    decide
  · simp only [Sees]
    decide
  · refine fun _ => .inl ?_
    simp only [Sees]
    decide
  · intro walker reached _
    rcases hall_walk reached with ⟨n, less, rfl⟩
    interval_cases n <;> constructor <;> simp only [Sees] <;> decide +kernel

/-- A free pixel whose wall has a diagonal gap. -/
def gap : NavigationGraphBuilder where
  image := ⟨3, 3, fun point =>
    if point ∈ [⟨2, 0⟩, ⟨0, 1⟩, ⟨1, 1⟩, ⟨0, 2⟩, ⟨1, 2⟩] then .white else .black⟩

/-- From its top row the hall is left through the ceiling, and the path that starts at the gap
closes with a slanted edge. -/
theorem not_followsWalls :
    (∀ wall path, ¬hall.FollowsWalls 0 0 wall path) ∧
      ∀ wall path, ¬gap.FollowsWalls 1 1 wall path := by
  constructor
  · intro wall path follows
    have isWall : hall.IsWall 0 0 2 := by
      refine ⟨by decide, fun x after before => ?_, by decide⟩
      interval_cases x <;> rfl
    rcases isWall.unique (follows.isWall (by decide) rfl) with rfl
    have outside := follows.visited _ (.step (.step .first (by decide)) (by decide))
    revert outside
    decide
  · intro wall path follows
    rcases follows.ends with ⟨bound, ends⟩
    have runs : gap.followWalls 1 1 (bound + 10) =
        some [⟨0, 1, 2⟩, ⟨1, 0, 2⟩, ⟨2, 0, 1⟩] := rfl
    rcases Option.some.inj ((ends _ (by omega)).2.symm.trans runs) with rfl
    have slanted := follows.aligned (⟨2, 0, 1⟩, ⟨0, 1, 2⟩) (by decide)
    revert slanted
    decide

end Halls

end NavigationGraphBuilder

end MrsOptimization.Navigation
