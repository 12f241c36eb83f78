import Mathlib.Tactic.LinearCombination
import Mathlib.Tactic.NormNum
import Mathlib.Tactic.Ring

/-!
# Vectors of the kinematics solver

`Vector3D` with exact coordinates. Its `mult` computes the third coordinate of the
product from the second one of the vector, so the law of the triple product holds
only where the third coordinates of the two multiples make up for it
(`vecTrip_eq_iff`). The arm of the solver keeps to the plane and does not notice.
-/

namespace MrsOptimization

/-- `Vector3D<Double>`. -/
@[ext]
structure Vector3D (K : Type) where
  a : K
  b : K
  c : K
  deriving DecidableEq

namespace Vector3D

variable {K : Type} [CommRing K]

def add (self vec : Vector3D K) : Vector3D K :=
  ⟨self.a + vec.a, self.b + vec.b, self.c + vec.c⟩

def sub (self vec : Vector3D K) : Vector3D K :=
  ⟨self.a - vec.a, self.b - vec.b, self.c - vec.c⟩

def dot (self vec : Vector3D K) : K :=
  self.a * vec.a + self.b * vec.b + self.c * vec.c

def cross (self vec : Vector3D K) : Vector3D K where
  a := self.b * vec.c - self.c * vec.b
  b := self.c * vec.a - self.a * vec.c
  c := self.a * vec.b - self.b * vec.a

/-- The third coordinate is computed from `b`, as in the source. -/
def mult (self : Vector3D K) (value : K) : Vector3D K where
  a := self.a * value
  b := self.b * value
  c := self.b * value

def vecTrip (self vecB vecC : Vector3D K) : Vector3D K :=
  self.cross (vecB.cross vecC)

/-- The law of the triple product, coordinate by coordinate. -/
theorem vecTrip_eq (self vecB vecC : Vector3D K) :
    self.vecTrip vecB vecC =
      ⟨vecB.a * self.dot vecC - vecC.a * self.dot vecB,
        vecB.b * self.dot vecC - vecC.b * self.dot vecB,
        vecB.c * self.dot vecC - vecC.c * self.dot vecB⟩ := by
  apply Vector3D.ext
  · simp only [vecTrip, cross, dot]
    ring
  · simp only [vecTrip, cross, dot]
    ring
  · simp only [vecTrip, cross, dot]
    ring

/-- With `mult` for the multiples, the law holds if the second and the third coordinates of the
two vectors differ by amounts that cancel. -/
theorem vecTrip_eq_iff (self vecB vecC : Vector3D K) :
    self.vecTrip vecB vecC = (vecB.mult (self.dot vecC)).sub (vecC.mult (self.dot vecB)) ↔
      (vecB.c - vecB.b) * self.dot vecC = (vecC.c - vecC.b) * self.dot vecB := by
  rw [vecTrip_eq]
  simp only [mult, sub, mk.injEq, true_and]
  constructor
  · intro third
    linear_combination third
  · intro differences
    linear_combination differences

/-- The multiple of the third axis is the zero vector. -/
theorem vecTrip_ne_thirdAxis :
    let x : Vector3D ℚ := ⟨1, 0, 0⟩
    let z : Vector3D ℚ := ⟨0, 0, 1⟩
    x.vecTrip z x = ⟨0, 0, 1⟩ ∧ (z.mult (x.dot x)).sub (x.mult (x.dot z)) = ⟨0, 0, 0⟩ ∧
      ¬∀ self vecB vecC : Vector3D ℚ, self.vecTrip vecB vecC =
        (vecB.mult (self.dot vecC)).sub (vecC.mult (self.dot vecB)) := by
  refine ⟨by norm_num [vecTrip, cross], by norm_num [mult, dot, sub], ?_⟩
  intro law
  have third := congrArg Vector3D.c (law ⟨1, 0, 0⟩ ⟨0, 0, 1⟩ ⟨1, 0, 0⟩)
  norm_num [vecTrip, cross, mult, dot, sub] at third

end Vector3D

end MrsOptimization
