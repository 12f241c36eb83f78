import MrsOptimization.Library.ComponentLabels
import Mathlib.Data.List.Flatten
import Mathlib.Data.List.Range
import Mathlib.Logic.Function.Basic

/-!
# Colouring the objects of a bitmap

`ObjectColorer.doColoring` scans a bitmap row by row. A foreground pixel takes the
colour of its left or upper neighbour, or a free one; where the two neighbours have
different colours, the object with fewer points is repainted and its colour is free
again. The random generator is a sequence of colours.
-/

namespace MrsOptimization.Navigation

/-- A 24-bit colour. -/
structure Color where
  red : Fin 256
  green : Fin 256
  blue : Fin 256
  deriving DecidableEq

structure Point where
  x : ℕ
  y : ℕ
  deriving DecidableEq

/-- A bitmap that stores 24-bit colours exactly. -/
structure BufferedImage where
  width : ℕ
  height : ℕ
  rgb : Point → Color

namespace BufferedImage

def setRGB (img : BufferedImage) (point : Point) (color : Color) : BufferedImage :=
  { img with rgb := Function.update img.rgb point color }

def Contains (img : BufferedImage) (point : Point) : Prop :=
  point.x < img.width ∧ point.y < img.height

def points (img : BufferedImage) : List Point :=
  (List.range img.height).flatMap fun j => (List.range img.width).map fun i => ⟨i, j⟩

end BufferedImage

def Color.black : Color := ⟨0, 0, 0⟩

def Color.white : Color := ⟨255, 255, 255⟩

/-- RED, ORANGE, YELLOW, GREEN, CYAN, BLUE and MAGENTA. -/
def palette : List Color :=
  [⟨255, 0, 0⟩, ⟨255, 200, 0⟩, ⟨255, 255, 0⟩, ⟨0, 255, 0⟩, ⟨0, 255, 255⟩, ⟨0, 0, 255⟩,
    ⟨255, 0, 255⟩]

/-- The fields that `doColoring` uses; `draws` is the position of the random generator. -/
structure ObjectColorer where
  backColor : Color
  map : Color → Option (List Point)
  usedColors : List Color
  colors : List Color
  draws : ℕ

/-- The colours of a pixel and of its left and upper neighbours. -/
structure Mask where
  A : Color
  B : Color
  C : Color

structure Coloring where
  colorer : ObjectColorer
  img : BufferedImage

namespace ObjectColorer

/-- `new ObjectColorer()` after `setBackColor`. -/
def fresh (backColor : Color) : ObjectColorer where
  backColor := backColor
  map _ := none
  usedColors := []
  colors := palette
  draws := 0

end ObjectColorer

namespace Coloring

def mask (state : Coloring) (point : Point) : Mask where
  A := state.img.rgb point
  B := if 0 < point.x then state.img.rgb ⟨point.x - 1, point.y⟩ else state.colorer.backColor
  C := if 0 < point.y then state.img.rgb ⟨point.x, point.y - 1⟩ else state.colorer.backColor

def setColor (state : Coloring) (point : Point) (color : Color) : Coloring where
  img := state.img.setRGB point color
  colorer := { state.colorer with
    map := Function.update state.colorer.map color
      (some (((state.colorer.map color).getD []) ++ [point])) }

/-- A pixel without neighbours takes the first free colour, or a random one. -/
def startObject (random : ℕ → Color) (state : Coloring) (point : Point) : Option Coloring :=
  let colorer := state.colorer
  let colorer :=
    if colorer.colors.isEmpty then
      { colorer with colors := [random colorer.draws], draws := colorer.draws + 1 }
    else colorer
  match colorer.colors with
  | [] => none
  | newColor :: colors =>
      let colorer :=
        { colorer with colors := colors, usedColors := colorer.usedColors ++ [newColor] }
      some (Coloring.setColor { state with colorer := colorer } point newColor)

/-- All points of one object get the colour of another one, whose own colour becomes free. -/
def repaint (state : Coloring) (point : Point) (src : List Point) (srcColor dstColor : Color) :
    Coloring :=
  let colorer := { state.colorer with
    colors := state.colorer.colors ++ [srcColor]
    usedColors := state.colorer.usedColors.erase srcColor
    map := Function.update state.colorer.map srcColor none }
  let repainted := src.foldl (fun state point => state.setColor point dstColor)
    { state with colorer := colorer }
  repainted.setColor point dstColor

/-- A pixel between two objects repaints the one with fewer points. -/
def mergeObjects (state : Coloring) (point : Point) (mask : Mask) : Option Coloring :=
  match state.colorer.map mask.B, state.colorer.map mask.C with
  | some listB, some listC =>
      if listB.length < listC.length then some (state.repaint point listB mask.B mask.C)
      else some (state.repaint point listC mask.C mask.B)
  | _, _ => none

/-- The body of the two loops; `none` stands for an exception. -/
def colorPixel (random : ℕ → Color) (state : Coloring) (point : Point) : Option Coloring :=
  let mask := state.mask point
  let backColor := state.colorer.backColor
  if mask.A = backColor then some state
  else if mask.B = backColor ∧ mask.C = backColor then state.startObject random point
  else if mask.B ≠ backColor ∧ mask.C ≠ backColor ∧ mask.B ≠ mask.C then
    state.mergeObjects point mask
  else if mask.B ≠ backColor then some (state.setColor point mask.B)
  else if mask.C ≠ backColor then some (state.setColor point mask.C)
  else some state

def scan (random : ℕ → Color) (state : Coloring) (points : List Point) : Option Coloring :=
  points.foldlM (colorPixel random) state

end Coloring

/-- `doColoring` returns the used colours and writes to the image. -/
def ObjectColorer.doColoring (random : ℕ → Color) (colorer : ObjectColorer)
    (img : BufferedImage) : Option (List Color × Coloring) := do
  let last ← Coloring.scan random ⟨colorer, img⟩ img.points
  return (last.colorer.usedColors, last)

end MrsOptimization.Navigation
