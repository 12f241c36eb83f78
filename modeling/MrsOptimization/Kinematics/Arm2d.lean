import MrsOptimization.Kinematics.Vector3D
import Mathlib.Algebra.BigOperators.Group.List.Basic
import Mathlib.Algebra.Order.Field.Basic
import Mathlib.Analysis.SpecialFunctions.Trigonometric.Basic

/-!
# The arm of the kinematics solver

`Arm2d` keeps its joints in a list, and every `Joint2d` keeps a reference to its
parent joint. The tip of the arm is added up along the list, while the poses of a
joint are computed by recursion through the parents.

`reach` says where a chain of links ends. An arm whose list and parent references
fit each other (`Arm2d.Chained`) gives the same poses in both ways.
-/

namespace MrsOptimization

/-- `cos`, `sin` and `toRadians` of `java.lang.Math` on the number type of the model. -/
class MathTrig (K : Type) where
  cos : K → K
  sin : K → K
  toRadians : K → K

noncomputable instance : MathTrig ℝ :=
  ⟨Real.cos, Real.sin, fun degrees => degrees / 180 * Real.pi⟩

abbrev JointRef := ℕ

/-- `Joint2d`, less the reference to its arm. -/
structure Joint2d (K : Type) where
  lenght : K
  alfa : K
  alfaOffset : K
  auxVector : Option (Vector3D K)
  auxValue : Option K
  parentJoint : Option JointRef

/-- An `Arm2d` together with the joint objects that were made for it. -/
structure Arm2d (K : Type) where
  next : JointRef
  joint : JointRef → Joint2d K
  base : Option (Vector3D K)
  joints : List JointRef

section Cells

variable {K : Type}

namespace Arm2d

/-- The arm with other contents of its joint objects. -/
def withJoints (arm : Arm2d K) (cells : JointRef → Joint2d K) : Arm2d K :=
  { arm with joint := cells }

@[simp]
theorem withJoints_joints (arm : Arm2d K) (cells : JointRef → Joint2d K) :
    (arm.withJoints cells).joints = arm.joints := rfl

@[simp]
theorem withJoints_base (arm : Arm2d K) (cells : JointRef → Joint2d K) :
    (arm.withJoints cells).base = arm.base := rfl

@[simp]
theorem withJoints_joint (arm : Arm2d K) (cells : JointRef → Joint2d K) :
    (arm.withJoints cells).joint = cells := rfl

def setJoint (arm : Arm2d K) (joint : JointRef) (value : Joint2d K) : Arm2d K :=
  arm.withJoints (Function.update arm.joint joint value)

/-- The arm after the construction of a joint. -/
def allocate (arm : Arm2d K) (value : Joint2d K) : Arm2d K :=
  { arm.setJoint arm.next value with next := arm.next + 1 }

/-- The parent of every joint of the arm is the one before it in the list. -/
structure Chained (arm : Arm2d K) : Prop where
  nodup : arm.joints.Nodup
  allocated : ∀ joint ∈ arm.joints, joint < arm.next
  first : ∀ joint, arm.joints[0]? = some joint → (arm.joint joint).parentJoint = none
  parent : ∀ i joint, arm.joints[i + 1]? = some joint →
    (arm.joint joint).parentJoint = arm.joints[i]?
  /-- Joints that were not added have no parent yet. -/
  fresh : ∀ joint ∉ arm.joints, (arm.joint joint).parentJoint = none

/-- Only the parent references of the joints matter. -/
theorem Chained.withJoints {arm : Arm2d K} {cells : JointRef → Joint2d K}
    (chained : arm.Chained)
    (same : ∀ joint, (cells joint).parentJoint = (arm.joint joint).parentJoint) :
    (arm.withJoints cells).Chained where
  nodup := chained.nodup
  allocated := chained.allocated
  first joint found := (same joint).trans (chained.first joint found)
  parent i joint found := (same joint).trans (chained.parent i joint found)
  fresh joint outside := (same joint).trans (chained.fresh joint outside)

end Arm2d

end Cells

section Links

variable {K : Type} [Field K] [MathTrig K]

/-- A part of the arm: its angle to the part before it, and its length. -/
structure Link (K : Type) where
  angle : K
  lenght : K

namespace Link

def vector (direction : K) (link : Link K) : Vector3D K where
  a := MathTrig.cos (MathTrig.toRadians direction) * link.lenght
  b := MathTrig.sin (MathTrig.toRadians direction) * link.lenght
  c := 0

def direction (links : List (Link K)) : K :=
  (links.map Link.angle).sum

/-- Where a chain of links ends that begins at `base`. -/
def reach (base : Vector3D K) (links : List (Link K)) : Vector3D K :=
  (links.foldl (fun (pose : Vector3D K × K) link =>
    (pose.1.add (link.vector (pose.2 + link.angle)), pose.2 + link.angle)) (base, 0)).1

omit [MathTrig K] in
theorem direction_concat (links : List (Link K)) (link : Link K) :
    direction (links ++ [link]) = direction links + link.angle := by
  simp [direction]

theorem reach_concat (base : Vector3D K) (links : List (Link K)) (link : Link K) :
    reach base (links ++ [link]) =
      (reach base links).add (link.vector (direction (links ++ [link]))) := by
  have directions : ∀ (links : List (Link K)) (pose : Vector3D K × K),
      (links.foldl (fun (pose : Vector3D K × K) link =>
        (pose.1.add (link.vector (pose.2 + link.angle)), pose.2 + link.angle)) pose).2 =
        pose.2 + direction links := by
    intro links
    induction links with
    | nil => simp [direction]
    | cons first rest ih =>
        intro pose
        rw [List.foldl_cons, ih]
        simp [direction, add_assoc]
  simp [reach, directions, direction_concat]

/-- The links keep to a plane. -/
theorem reach_c (base : Vector3D K) (links : List (Link K)) : (reach base links).c = base.c := by
  induction links using List.reverseRecOn with
  | nil => rfl
  | append_singleton links link ih =>
      rw [reach_concat]
      simp [Vector3D.add, vector, ih]

end Link

end Links

section Methods

variable {K : Type} [Field K] [LinearOrder K] [MathTrig K]

namespace Joint2d

/-- The constructor. -/
def new (lenght alfa : K) : Joint2d K where
  lenght := lenght
  alfa := alfa
  alfaOffset := 0
  auxVector := none
  auxValue := none
  parentJoint := none

def setAlfa (joint : Joint2d K) (alfa : K) : Joint2d K :=
  { joint with alfa := min (max alfa (-((90 : ℕ) : K))) ((90 : ℕ) : K) }

def changeAlfa (joint : Joint2d K) (delta : K) : Joint2d K :=
  let maxDelta : K := ((5 : ℕ) : K)
  joint.setAlfa (joint.alfa + max (min delta maxDelta) (-maxDelta))

def setAlfaOffset (joint : Joint2d K) (alfaOffset : K) : Joint2d K :=
  { joint with alfaOffset := alfaOffset }

def setLenght (joint : Joint2d K) (lenght : K) : Joint2d K :=
  { joint with lenght := lenght }

def setParentJoint (joint : Joint2d K) (parentJoint : JointRef) : Joint2d K :=
  { joint with parentJoint := some parentJoint }

/-- The methods that follow the parent joints get the number of calls that fit on the stack;
`none` is an uncaught error. -/
def getGlobalAlfa (arm : Arm2d K) : ℕ → JointRef → Option K
  | 0, _ => none
  | stack + 1, this =>
      match (arm.joint this).parentJoint with
      | some parentJoint => do
          let parentAlfa ← getGlobalAlfa arm stack parentJoint
          return parentAlfa + (arm.joint this).alfa + (arm.joint this).alfaOffset
      | none => return (arm.joint this).alfa + (arm.joint this).alfaOffset

def getVector (arm : Arm2d K) (stack : ℕ) (this : JointRef) : Option (Vector3D K) := do
  let globalAlfa ← getGlobalAlfa arm stack this
  return ⟨MathTrig.cos (MathTrig.toRadians globalAlfa) * (arm.joint this).lenght,
    MathTrig.sin (MathTrig.toRadians globalAlfa) * (arm.joint this).lenght, 0⟩

/-- The pose is `null` if the arm has no base; adding to it is an error then. -/
def getBasePose (arm : Arm2d K) : ℕ → JointRef → Option (Option (Vector3D K))
  | 0, _ => none
  | stack + 1, this =>
      match (arm.joint this).parentJoint with
      | some parentJoint => do
          let base ← (← getBasePose arm stack parentJoint)
          let vector ← getVector arm stack parentJoint
          return some (base.add vector)
      | none => return arm.base

def getTipPose (arm : Arm2d K) (stack : ℕ) (this : JointRef) :
    Option (Option (Vector3D K)) := do
  let base ← (← getBasePose arm stack this)
  let vector ← getVector arm stack this
  return some (base.add vector)

end Joint2d

namespace Arm2d

def new : Arm2d K where
  next := 0
  joint := fun _ => Joint2d.new 0 0
  base := none
  joints := []

def addJoint (arm : Arm2d K) (joint : JointRef) : Arm2d K :=
  let linked := match arm.joints.getLast? with
    | some last => arm.setJoint joint ((arm.joint joint).setParentJoint last)
    | none => arm
  { linked with joints := arm.joints ++ [joint] }

def setBase (arm : Arm2d K) (base : Option (Vector3D K)) : Arm2d K :=
  { arm with base := base }

/-- The tip is `null` if the arm has no joints. -/
def getTip (arm : Arm2d K) (stack : ℕ) : Option (Option (Vector3D K)) :=
  if arm.joints.isEmpty then
    return none
  else do
    let base ← arm.base
    let tip ← arm.joints.foldlM (fun (tip : Vector3D K) joint => do
      let vector ← Joint2d.getVector arm stack joint
      return tip.add vector) base
    return some tip

def link (arm : Arm2d K) (joint : JointRef) : Link K where
  angle := (arm.joint joint).alfa + (arm.joint joint).alfaOffset
  lenght := (arm.joint joint).lenght

def links (arm : Arm2d K) : List (Link K) :=
  arm.joints.map arm.link

/-- Where a joint of the arm begins if the arm begins at `base`. -/
def baseOf (arm : Arm2d K) (base : Vector3D K) (joint : JointRef) : Vector3D K :=
  Link.reach base (arm.links.take (arm.joints.idxOf joint))

end Arm2d

end Methods

section Poses

variable {K : Type} [Field K] [MathTrig K] {arm : Arm2d K}

omit [MathTrig K] in
theorem Arm2d.take_links_succ {i : ℕ} {joint : JointRef} (found : arm.joints[i]? = some joint) :
    arm.links.take (i + 1) = arm.links.take i ++ [arm.link joint] := by
  rw [List.take_add_one]
  simp [links, found]

namespace Arm2d.Chained

variable (chained : arm.Chained) {i stack : ℕ} {joint : JointRef}
  (found : arm.joints[i]? = some joint) (deep : i < stack)

include chained found deep

omit [MathTrig K] in
theorem getGlobalAlfa_eq :
    Joint2d.getGlobalAlfa arm stack joint = some (Link.direction (arm.links.take (i + 1))) := by
  induction i generalizing stack joint with
  | zero =>
      rcases Nat.exists_eq_succ_of_ne_zero deep.ne' with ⟨frames, rfl⟩
      rw [Arm2d.take_links_succ found, Link.direction_concat]
      simp [Joint2d.getGlobalAlfa, chained.first joint found, Link.direction, link]
  | succ i ih =>
      rcases Nat.exists_eq_succ_of_ne_zero (Nat.zero_lt_of_lt deep).ne' with ⟨frames, rfl⟩
      have inside : i < arm.joints.length := by
        have := (List.getElem?_eq_some_iff.mp found).1
        omega
      have before : arm.joints[i]? = some arm.joints[i] := List.getElem?_eq_getElem inside
      rw [Arm2d.take_links_succ found, Link.direction_concat]
      simp [Joint2d.getGlobalAlfa, chained.parent i joint found, before,
        ih before (by omega : i < frames), link, add_assoc]

theorem getVector_eq :
    Joint2d.getVector arm stack joint =
      some ((arm.link joint).vector (Link.direction (arm.links.take (i + 1)))) := by
  rw [Joint2d.getVector, chained.getGlobalAlfa_eq found deep]
  rfl

/-- A joint begins where the links before it end. -/
theorem getBasePose_eq :
    Joint2d.getBasePose arm stack joint =
      if i = 0 then some arm.base
      else arm.base.map fun base => some (Link.reach base (arm.links.take i)) := by
  induction i generalizing stack joint with
  | zero =>
      rcases Nat.exists_eq_succ_of_ne_zero deep.ne' with ⟨frames, rfl⟩
      simp [Joint2d.getBasePose, chained.first joint found]
  | succ i ih =>
      rcases Nat.exists_eq_succ_of_ne_zero (Nat.zero_lt_of_lt deep).ne' with ⟨frames, rfl⟩
      have inside : i < arm.joints.length := by
        have := (List.getElem?_eq_some_iff.mp found).1
        omega
      have before : arm.joints[i]? = some arm.joints[i] := List.getElem?_eq_getElem inside
      have framesDeep : i < frames := by omega
      simp only [Joint2d.getBasePose, chained.parent i joint found, before,
        ih before framesDeep, chained.getVector_eq before framesDeep,
        Arm2d.take_links_succ before, Link.reach_concat]
      cases arm.base with
      | none => by_cases i = 0 <;> simp [*]
      | some base =>
          cases i with
          | zero => simp [Link.reach]
          | succ i => simp

/-- The tip of a joint is where the links up to it end. -/
theorem getTipPose_eq :
    Joint2d.getTipPose arm stack joint =
      arm.base.map fun base => some (Link.reach base (arm.links.take (i + 1))) := by
  rw [Joint2d.getTipPose, chained.getBasePose_eq found deep, chained.getVector_eq found deep,
    Arm2d.take_links_succ found]
  simp only [Link.reach_concat]
  cases arm.base with
  | none => by_cases i = 0 <;> simp [*]
  | some base =>
      cases i with
      | zero => simp [Link.reach]
      | succ i => simp

omit found deep

theorem getBasePose_of_mem {base : Vector3D K} (based : arm.base = some base)
    {joint : JointRef} (jointMem : joint ∈ arm.joints) (deep : arm.joints.length ≤ stack) :
    Joint2d.getBasePose arm stack joint = some (some (arm.baseOf base joint)) := by
  have index : arm.joints.idxOf joint < arm.joints.length := List.idxOf_lt_length_of_mem jointMem
  have found : arm.joints[arm.joints.idxOf joint]? = some joint := by
    rw [List.getElem?_eq_getElem index, List.getElem_idxOf]
  rw [chained.getBasePose_eq found (index.trans_le deep), based, baseOf]
  by_cases isFirst : arm.joints.idxOf joint = 0
  · simp [isFirst, Link.reach]
  · simp [isFirst]

theorem getTip_eq (nonempty : arm.joints ≠ []) (deep : arm.joints.length ≤ stack) :
    arm.getTip stack = arm.base.map fun base => some (Link.reach base arm.links) := by
  have loop : ∀ (base : Vector3D K) (passed : ℕ), passed ≤ arm.joints.length →
      (arm.joints.take passed).foldlM (fun (tip : Vector3D K) joint => do
          let vector ← Joint2d.getVector arm stack joint
          return tip.add vector) base =
        some (Link.reach base (arm.links.take passed)) := by
    intro base passed
    induction passed with
    | zero =>
        intro _
        simp [Link.reach]
    | succ passed ih =>
        intro short
        have found : arm.joints[passed]? = some arm.joints[passed] :=
          List.getElem?_eq_getElem (by omega)
        have taken : arm.joints.take (passed + 1) =
            arm.joints.take passed ++ [arm.joints[passed]] := by
          rw [List.take_add_one, found]
          rfl
        rw [taken, List.foldlM_append, ih (by omega), Arm2d.take_links_succ found,
          Link.reach_concat]
        simp [chained.getVector_eq found (by omega : passed < stack),
          Arm2d.take_links_succ found]
  have all : arm.links.take arm.joints.length = arm.links := by
    exact List.take_of_length_le (by simp [Arm2d.links])
  rw [Arm2d.getTip, if_neg (by simpa using nonempty)]
  cases arm.base with
  | none => rfl
  | some base =>
      have whole := loop base arm.joints.length le_rfl
      rw [List.take_length, all] at whole
      exact congrArg (fun tip => tip.bind fun reached => some (some reached)) whole

/-- Without joints or without a base the arm has no tip. -/
theorem getTip_ne (deep : arm.joints.length ≤ stack)
    (unready : arm.joints = [] ∨ arm.base = none) (tip : Vector3D K) :
    arm.getTip stack ≠ some (some tip) := by
  by_cases empty : arm.joints = []
  · simp [Arm2d.getTip, empty]
  · rw [chained.getTip_eq empty deep, unready.resolve_left empty]
    simp

end Arm2d.Chained

end Poses

end MrsOptimization
