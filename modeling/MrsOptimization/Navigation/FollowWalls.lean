import MrsOptimization.Navigation.NavigationGraph

/-!
# Where the walker goes

The corner tests turn the walker back as soon as it is outside the image, so no point
of a path that `followWalls` returns is more than one pixel outside. The points are
numbered from zero.
-/

namespace MrsOptimization.Navigation.NavigationGraphBuilder

/-- The walker is at most one pixel outside the image and then about to turn back. -/
structure InFrame (builder : NavigationGraphBuilder) (walker : Walker) : Prop where
  left : -1 ≤ walker.x
  right : walker.x ≤ builder.image.width
  top : -1 ≤ walker.y
  bottom : walker.y ≤ builder.image.height
  heading : walker.dx = 0 ∧ (walker.dy = 1 ∨ walker.dy = -1) ∨
    walker.dy = 0 ∧ (walker.dx = 1 ∨ walker.dx = -1)
  atLeft : walker.x = -1 → walker.dx = -1 ∨ walker.dy = -1
  atRight : walker.x = builder.image.width → walker.dx = 1 ∨ walker.dy = 1
  atTop : walker.y = -1 → walker.dy = -1 ∨ walker.dx = 1
  atBottom : walker.y = builder.image.height → walker.dy = 1 ∨ walker.dx = -1

/-- The points of a path are numbered, and each is at most one pixel outside the image. -/
structure PathInFrame (builder : NavigationGraphBuilder) (path : List MyPoint) : Prop where
  ids : path.map MyPoint.id = List.range path.length
  frame : ∀ p ∈ path, -1 ≤ p.x ∧ p.x ≤ builder.image.width ∧
    -1 ≤ p.y ∧ p.y ≤ builder.image.height

variable {builder : NavigationGraphBuilder}

theorem getPixelColor_outside {x y : ℤ}
    (outside : x < 0 ∨ builder.image.width ≤ x ∨ y < 0 ∨ builder.image.height ≤ y) :
    builder.getPixelColor x y = builder.backColor :=
  if_pos outside

theorem inside_of_getPixelColor {x y : ℤ} (colours : builder.backColor ≠ builder.foreColor)
    (fore : builder.getPixelColor x y = builder.foreColor) :
    0 ≤ x ∧ x < builder.image.width ∧ 0 ≤ y ∧ y < builder.image.height := by
  by_contra outside
  apply colours
  rw [← fore, getPixelColor_outside]
  omega

theorem isInnerCorner_outside {x y : ℤ}
    (outside : x < 0 ∨ builder.image.width ≤ x ∨ y < 0 ∨ builder.image.height ≤ y) :
    builder.isInnerCorner x y = true := by
  have back {x' y' : ℤ} (h : x' < 0 ∨ builder.image.width ≤ x' ∨ y' < 0 ∨
      builder.image.height ≤ y') := getPixelColor_outside h
  simp only [isInnerCorner, isCorner, decide_eq_true_eq]
  rcases outside with left | right | top | bottom
  · exact .inl ⟨back (by omega), back (by omega), back (by omega)⟩
  · exact .inr (.inl ⟨back (by omega), back (by omega), back (by omega)⟩)
  · exact .inl ⟨back (by omega), back (by omega), back (by omega)⟩
  · exact .inr (.inr (.inl ⟨back (by omega), back (by omega), back (by omega)⟩))

/-- What a step does: outside the image the walker turns right, inside it may turn. -/
theorem followStep_cases (walker : Walker) :
    builder.followStep walker = walker.turnRight.addPoint.step ∨
      (0 ≤ walker.x ∧ walker.x < builder.image.width ∧ 0 ≤ walker.y ∧
        walker.y < builder.image.height) ∧
        (builder.followStep walker = walker.turnLeft.addPoint.step ∨
          builder.followStep walker = walker.step) := by
  rw [followStep]
  split
  · exact .inl rfl
  · rename_i notInner
    right
    refine ⟨?_, ?_⟩
    · by_contra outside
      apply notInner
      apply isInnerCorner_outside
      omega
    · split
      · exact .inl rfl
      · exact .inr rfl

theorem turnRight_shape (walker : Walker) :
    ∃ dx dy, walker.turnRight = { walker with dx := dx, dy := dy } := by
  simp only [Walker.turnRight]
  repeat' split
  all_goals exact ⟨_, _, rfl⟩

theorem turnLeft_shape (walker : Walker) :
    ∃ dx dy, walker.turnLeft = { walker with dx := dx, dy := dy } := by
  simp only [Walker.turnLeft]
  repeat' split
  all_goals exact ⟨_, _, rfl⟩

theorem followStep_path (walker : Walker) :
    (builder.followStep walker).path = walker.path ∨
      (builder.followStep walker).path =
        walker.path ++ [⟨walker.path.length, walker.x, walker.y⟩] := by
  rcases turnRight_shape walker with ⟨_, _, right⟩
  rcases turnLeft_shape walker with ⟨_, _, left⟩
  rcases builder.followStep_cases walker with turned | ⟨-, turned | straight⟩
  · right
    rw [turned, right, Walker.step, Walker.addPoint]
  · right
    rw [turned, left, Walker.step, Walker.addPoint]
  · left
    rw [straight, Walker.step]

theorem InFrame.turnRight {walker : Walker}
    (nonempty : 0 < builder.image.width ∧ 0 < builder.image.height)
    (inFrame : builder.InFrame walker) : builder.InFrame walker.turnRight.addPoint.step := by
  rcases nonempty with ⟨wide, high⟩
  rcases inFrame with ⟨left, right, top, bottom, heading, atLeft, atRight, atTop, atBottom⟩
  simp only [Walker.turnRight]
  rcases heading with ⟨dx, dy | dy⟩ | ⟨dy, dx | dx⟩ <;>
    simp [Walker.addPoint, Walker.step, dx, dy] at * <;>
    constructor <;> simp <;> omega

/-- From a pixel of the image every straight step stays in the frame. -/
theorem inFrame_step {walker : Walker}
    (inside : 0 ≤ walker.x ∧ walker.x < builder.image.width ∧ 0 ≤ walker.y ∧
      walker.y < builder.image.height)
    (heading : walker.dx = 0 ∧ (walker.dy = 1 ∨ walker.dy = -1) ∨
      walker.dy = 0 ∧ (walker.dx = 1 ∨ walker.dx = -1)) : builder.InFrame walker.step := by
  constructor <;> simp only [Walker.step] <;> omega

theorem turnLeft_heading {walker : Walker}
    (heading : walker.dx = 0 ∧ (walker.dy = 1 ∨ walker.dy = -1) ∨
      walker.dy = 0 ∧ (walker.dx = 1 ∨ walker.dx = -1)) :
    walker.turnLeft.dx = 0 ∧ (walker.turnLeft.dy = 1 ∨ walker.turnLeft.dy = -1) ∨
      walker.turnLeft.dy = 0 ∧ (walker.turnLeft.dx = 1 ∨ walker.turnLeft.dx = -1) := by
  simp only [Walker.turnLeft]
  rcases heading with ⟨dx, dy | dy⟩ | ⟨dy, dx | dx⟩ <;> simp [dx, dy]

theorem InFrame.followStep {walker : Walker}
    (nonempty : 0 < builder.image.width ∧ 0 < builder.image.height)
    (inFrame : builder.InFrame walker) : builder.InFrame (builder.followStep walker) := by
  rcases builder.followStep_cases walker with turned | ⟨inside, turned | straight⟩
  · rw [turned]
    exact inFrame.turnRight nonempty
  · rcases turnLeft_shape walker with ⟨dx, dy, shape⟩
    have heading := turnLeft_heading inFrame.heading
    rw [turned]
    rw [shape] at heading ⊢
    exact inFrame_step inside heading
  · rw [straight]
    exact inFrame_step inside inFrame.heading

theorem PathInFrame.followStep {walker : Walker} (inFrame : builder.InFrame walker)
    (path : builder.PathInFrame walker.path) :
    builder.PathInFrame (builder.followStep walker).path := by
  rcases builder.followStep_path walker with same | added
  · rwa [same]
  · rw [added]
    refine ⟨?_, fun p pMem => ?_⟩
    · simp [path.ids, List.range_succ]
    · rcases List.mem_append.mp pMem with old | new
      · exact path.frame p old
      · rw [List.mem_singleton.mp new]
        exact ⟨inFrame.left, inFrame.right, inFrame.top, inFrame.bottom⟩

theorem moveRight_inside {startX startY last : ℤ} {fuel : ℕ}
    (start : builder.getPixelColor startX startY = builder.foreColor)
    (runs : builder.moveRight startX startY fuel = some last) :
    builder.getPixelColor last startY = builder.foreColor := by
  refine @whileLoop_invariant _ _ _ (fun x => builder.getPixelColor x startY = builder.foreColor)
    ?_ _ _ _ start runs
  intro x next _ continues stepped
  rcases Option.some.inj stepped with rfl
  exact of_decide_eq_true continues

/-- The points of every path that `followWalls` returns for a foreground pixel. -/
theorem followWalls_inFrame {startX startY : ℤ} {fuel : ℕ} {path : List MyPoint}
    (colours : builder.backColor ≠ builder.foreColor)
    (start : builder.getPixelColor startX startY = builder.foreColor)
    (follows : builder.followWalls startX startY fuel = some path) : builder.PathInFrame path := by
  simp only [followWalls, Option.bind_eq_bind, Option.bind_eq_some_iff] at follows
  rcases follows with ⟨wall, moved, walker, walked, returned⟩
  rcases Option.some.inj returned with rfl
  have inside := inside_of_getPixelColor colours (moveRight_inside start moved)
  have nonempty : 0 < builder.image.width ∧ 0 < builder.image.height := by omega
  have first : builder.InFrame ⟨wall, startY, 0, 1, []⟩ := by
    constructor <;> simp <;> omega
  have empty : builder.PathInFrame [] := ⟨rfl, by simp⟩
  refine (@whileLoop_invariant _ _ _ (fun walker =>
    builder.InFrame walker ∧ builder.PathInFrame walker.path) ?_ _ _ _ ?_ walked).2
  · intro walker next inFrame _ stepped
    rcases Option.some.inj stepped with rfl
    exact ⟨inFrame.1.followStep nonempty, inFrame.2.followStep inFrame.1⟩
  · exact ⟨first.followStep nonempty, empty.followStep first⟩

end MrsOptimization.Navigation.NavigationGraphBuilder
