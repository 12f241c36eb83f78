import MrsOptimization.Library.MachineInt
import MrsOptimization.Library.WhileLoop
import MrsOptimization.Navigation.ObjectColorer

/-!
# The navigation graph of a bitmap

`NavigationGraphBuilder.followWalls` walks along the wall of a region of foreground
pixels and returns the corners; `triangulate` clips ears from the polygon of the corners
and returns the diagonals. The parameter `int` is what storing a value in an `int` makes
of it: the value itself in unbounded arithmetic, `wrap 32` in the machine. The area
sums and products are reduced once, at the end.
-/

namespace MrsOptimization.Navigation

/-- A corner of a path. `followWalls` numbers the corners, so `id` stands for the identity of
the object. -/
structure MyPoint where
  id : ℕ
  x : ℤ
  y : ℤ
  deriving DecidableEq

namespace CircularArrayList

/-- `none` stands for the exception of an empty list. -/
def get {E : Type} (list : List E) (index : ℤ) : Option E := list[(index % list.length).toNat]?

/-- `remove(Object)` compares coordinates, as `Point.equals` does. -/
def remove (list : List MyPoint) (point : MyPoint) : List MyPoint :=
  list.eraseP fun p => p.x = point.x ∧ p.y = point.y

end CircularArrayList

structure NavigationGraphBuilder where
  backColor : Color := Color.black
  foreColor : Color := Color.white
  image : BufferedImage

/-- The local variables of `followWalls`. -/
structure Walker where
  x : ℤ
  y : ℤ
  dx : ℤ
  dy : ℤ
  path : List MyPoint

namespace Walker

def turnRight (walker : Walker) : Walker :=
  if 0 < walker.dy then { walker with dx := -1, dy := 0 }
  else if walker.dx < 0 then { walker with dx := 0, dy := -1 }
  else if walker.dy < 0 then { walker with dx := 1, dy := 0 }
  else if 0 < walker.dx then { walker with dx := 0, dy := 1 }
  else walker

def turnLeft (walker : Walker) : Walker :=
  if walker.dy < 0 then { walker with dx := -1, dy := 0 }
  else if walker.dx < 0 then { walker with dx := 0, dy := 1 }
  else if 0 < walker.dy then { walker with dx := 1, dy := 0 }
  else if 0 < walker.dx then { walker with dx := 0, dy := -1 }
  else walker

/-- `path.add(new MyPoint(path.size(), x, y))` -/
def addPoint (walker : Walker) : Walker :=
  { walker with path := walker.path ++ [⟨walker.path.length, walker.x, walker.y⟩] }

def step (walker : Walker) : Walker :=
  { walker with x := walker.x + walker.dx, y := walker.y + walker.dy }

end Walker

/-- The local variables of the clipping loop of `triangulate`. -/
structure Clipping where
  workPoints : List MyPoint
  index : ℤ
  lines : List (MyPoint × MyPoint)
  deriving DecidableEq

namespace NavigationGraphBuilder

variable (builder : NavigationGraphBuilder)

def getPixelColor (x y : ℤ) : Color :=
  if x < 0 ∨ builder.image.width ≤ x ∨ y < 0 ∨ builder.image.height ≤ y then builder.backColor
  else builder.image.rgb ⟨x.toNat, y.toNat⟩

def isCorner (x y : ℤ) (c1 c2 : Color) : Bool :=
  -- top-left, top-right, bottom-left, bottom-right
  (builder.getPixelColor (x - 1) y = c1 ∧ builder.getPixelColor x (y - 1) = c1 ∧
      builder.getPixelColor (x - 1) (y - 1) = c2) ∨
    (builder.getPixelColor (x + 1) y = c1 ∧ builder.getPixelColor x (y - 1) = c1 ∧
      builder.getPixelColor (x + 1) (y - 1) = c2) ∨
    (builder.getPixelColor (x - 1) y = c1 ∧ builder.getPixelColor x (y + 1) = c1 ∧
      builder.getPixelColor (x - 1) (y + 1) = c2) ∨
    (builder.getPixelColor (x + 1) y = c1 ∧ builder.getPixelColor x (y + 1) = c1 ∧
      builder.getPixelColor (x + 1) (y + 1) = c2)

def isInnerCorner (x y : ℤ) : Bool := builder.isCorner x y builder.backColor builder.backColor

def isOuterCorner (x y : ℤ) : Bool := builder.isCorner x y builder.foreColor builder.backColor

/-- The body of the loop of `followWalls`. -/
def followStep (walker : Walker) : Walker :=
  if builder.isInnerCorner walker.x walker.y then walker.turnRight.addPoint.step
  else if builder.isOuterCorner walker.x walker.y then walker.turnLeft.addPoint.step
  else walker.step

/-- `startX` after the first loop. -/
def moveRight (startX startY : ℤ) (fuel : ℕ) : Option ℤ :=
  whileLoop (fun x => builder.getPixelColor (x + 1) startY = builder.foreColor)
    (fun x => some (x + 1)) fuel startX

/-- `none` stands for running out of fuel. -/
def followWalls (startX startY : ℤ) (fuel : ℕ) : Option (List MyPoint) := do
  let startX ← builder.moveRight startX startY fuel
  let walker ← whileLoop (fun walker => walker.x ≠ startX ∨ walker.y ≠ startY)
    (fun walker => some (builder.followStep walker)) fuel
    (builder.followStep ⟨startX, startY, 0, 1, []⟩)
  return walker.path

section Triangulate

variable (int : ℤ → ℤ)

def isConvex (a b c : MyPoint) : Bool :=
  0 < int (a.x * (c.y - b.y) + b.x * (a.y - c.y) + c.x * (b.y - a.y))

def isInsideTriangle (a b c test : MyPoint) : Bool :=
  let v1 := int ((a.x - test.x) * (b.y - a.y) - (b.x - a.x) * (a.y - test.y))
  let v2 := int ((b.x - test.x) * (c.y - b.y) - (c.x - b.x) * (b.y - test.y))
  let v3 := int ((c.x - test.x) * (a.y - c.y) - (a.x - c.x) * (c.y - test.y))
  (0 ≤ v1 ∧ 0 ≤ v2 ∧ 0 ≤ v3) ∨ (v1 ≤ 0 ∧ v2 ≤ 0 ∧ v3 ≤ 0)

/-- No other point of the list is inside the triangle. -/
def isEar (workPoints : List MyPoint) (curr prev next : MyPoint) : Bool :=
  workPoints.all fun p =>
    !(p.id != curr.id && p.id != prev.id && p.id != next.id &&
      isInsideTriangle int curr prev next p)

/-- The body of the clipping loop. -/
def clippingStep (clipping : Clipping) : Option Clipping := do
  let curr ← CircularArrayList.get clipping.workPoints clipping.index
  let prev ← CircularArrayList.get clipping.workPoints (int (clipping.index - 1))
  let next ← CircularArrayList.get clipping.workPoints (int (clipping.index + 1))
  if isConvex int curr prev next && isEar int clipping.workPoints curr prev next then
    return ⟨CircularArrayList.remove clipping.workPoints curr, int (clipping.index + 1),
      clipping.lines ++ [(prev, next)]⟩
  else
    return { clipping with index := int (clipping.index + 1) }

/-- The loop of `triangulate`. -/
def clippingLoop (fuel : ℕ) (clipping : Clipping) : Option Clipping :=
  whileLoop (fun clipping => 3 < clipping.workPoints.length) (clippingStep int) fuel clipping

/-- The diagonals that `triangulate` draws; `none` stands for running out of fuel and for the
exception of an empty path. -/
def triangulate (points : List MyPoint) (fuel : ℕ) : Option (List (MyPoint × MyPoint)) :=
  if points = [] then none
  else (clippingLoop int fuel ⟨points, 0, []⟩).map Clipping.lines

end Triangulate

end NavigationGraphBuilder

end MrsOptimization.Navigation
