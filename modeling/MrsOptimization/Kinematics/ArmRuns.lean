import MrsOptimization.Kinematics.IKSolver
import MrsOptimization.Library.EventRuns

/-!
# Arms that are built, changed and solved

A run constructs joints, adds them to the arm, changes the arm and its joints, and
makes steps of the solver, in any order. List order and parent references fit each
other throughout (`chained_of_run`), so the poses that an arm computes in different
ways agree (`arm2d_poses`), and what is known about a step of the solver holds of
every arm (`usesInitialPose_iff`).
-/

namespace MrsOptimization

section Events

variable {K : Type} [Field K] [LinearOrder K] [MathTrig K]

inductive ArmEvent (K : Type) where
  | newJoint (lenght alfa : K)
  | addJoint (joint : JointRef)
  | setBase (base : Option (Vector3D K))
  | setLenght (joint : JointRef) (lenght : K)
  | setAlfa (joint : JointRef) (alfa : K)
  | changeAlfa (joint : JointRef) (delta : K)
  | setAlfaOffset (joint : JointRef) (alfaOffset : K)
  | solve (stack : ℕ) (target : Vector3D K)

namespace ArmEvent

/-- A method is called on joints that exist, and a joint is added once. -/
def run : ArmEvent K → Arm2d K → Option (Arm2d K)
  | newJoint lenght alfa, arm => some (arm.allocate (Joint2d.new lenght alfa))
  | addJoint joint, arm =>
      if joint < arm.next ∧ joint ∉ arm.joints then some (arm.addJoint joint) else none
  | setBase base, arm => some (arm.setBase base)
  | setLenght joint lenght, arm =>
      if joint < arm.next then some (arm.setJoint joint ((arm.joint joint).setLenght lenght))
      else none
  | setAlfa joint alfa, arm =>
      if joint < arm.next then some (arm.setJoint joint ((arm.joint joint).setAlfa alfa)) else none
  | changeAlfa joint delta, arm =>
      if joint < arm.next then some (arm.setJoint joint ((arm.joint joint).changeAlfa delta))
      else none
  | setAlfaOffset joint alfaOffset, arm =>
      if joint < arm.next then
        some (arm.setJoint joint ((arm.joint joint).setAlfaOffset alfaOffset))
      else none
  | solve stack target, arm => IKSolver.step stack target arm

end ArmEvent

end Events

section Invariant

variable {K : Type} {arm : Arm2d K}

namespace Arm2d.Chained

theorem new [Field K] : (Arm2d.new : Arm2d K).Chained := by
  refine ⟨List.nodup_nil, ?_, ?_, ?_, fun _ _ => rfl⟩
  · simp [Arm2d.new]
  · simp [Arm2d.new]
  · simp [Arm2d.new]

theorem setJoint (chained : arm.Chained) (joint : JointRef) {value : Joint2d K}
    (same : value.parentJoint = (arm.joint joint).parentJoint) :
    (arm.setJoint joint value).Chained := by
  apply chained.withJoints
  intro other
  by_cases this : other = joint
  · subst this
    rw [Function.update_self, same]
  · rw [Function.update_of_ne this]

theorem allocate (chained : arm.Chained) {value : Joint2d K} (orphan : value.parentJoint = none) :
    (arm.allocate value).Chained := by
  have old : ∀ joint ∈ arm.joints, (arm.allocate value).joint joint = arm.joint joint :=
    fun joint jointMem => Function.update_of_ne (chained.allocated joint jointMem).ne _ _
  refine ⟨chained.nodup, ?_, ?_, ?_, ?_⟩
  · intro joint jointMem
    exact (chained.allocated joint jointMem).trans (Nat.lt_succ_self _)
  · intro joint found
    rw [old joint (List.mem_of_getElem? found)]
    exact chained.first joint found
  · intro i joint found
    rw [old joint (List.mem_of_getElem? found)]
    exact chained.parent i joint found
  · intro joint outside
    by_cases this : joint = arm.next
    · subst this
      change (Function.update arm.joint arm.next value arm.next).parentJoint = none
      rw [Function.update_self, orphan]
    · change (Function.update arm.joint arm.next value joint).parentJoint = none
      rw [Function.update_of_ne this]
      exact chained.fresh joint outside

/-- A joint may follow the others if its parent is the last of them. -/
theorem append (chained : arm.Chained) {cells : JointRef → Joint2d K} {joint : JointRef}
    (allocated : joint < arm.next) (outside : joint ∉ arm.joints)
    (old : ∀ other, other ≠ joint → cells other = arm.joint other)
    (added : (cells joint).parentJoint = arm.joints.getLast?) :
    ({ arm.withJoints cells with joints := arm.joints ++ [joint] } : Arm2d K).Chained := by
  have differs : ∀ other ∈ arm.joints, other ≠ joint := by
    rintro other otherMem rfl
    exact outside otherMem
  refine ⟨?_, ?_, ?_, ?_, ?_⟩
  · rw [← List.concat_eq_append, List.nodup_concat]
    exact ⟨outside, chained.nodup⟩
  · intro other otherMem
    rcases List.mem_append.mp otherMem with before | last
    · exact chained.allocated other before
    · rw [List.mem_singleton.mp last]
      exact allocated
  · intro other found
    change (arm.joints ++ [joint])[0]? = some other at found
    change (cells other).parentJoint = none
    by_cases empty : arm.joints = []
    · rw [empty] at found added
      cases found
      exact added
    · have inside : 0 < arm.joints.length := List.length_pos_of_ne_nil empty
      rw [List.getElem?_append_left inside] at found
      rw [old other (differs other (List.mem_of_getElem? found))]
      exact chained.first other found
  · intro i other found
    change (arm.joints ++ [joint])[i + 1]? = some other at found
    change (cells other).parentJoint = (arm.joints ++ [joint])[i]?
    rcases Nat.lt_trichotomy (i + 1) arm.joints.length with inside | last | beyond
    · rw [List.getElem?_append_left inside] at found
      rw [List.getElem?_append_left (by omega),
        old other (differs other (List.mem_of_getElem? found))]
      exact chained.parent i other found
    · rw [last, List.getElem?_concat_length] at found
      cases found
      rw [added, List.getElem?_append_left (by omega), List.getLast?_eq_getElem?, ← last]
      rfl
    · rw [List.getElem?_eq_none (by simp; omega)] at found
      cases found
  · intro other notAdded
    change other ∉ arm.joints ++ [joint] at notAdded
    rw [List.mem_append, List.mem_singleton, not_or] at notAdded
    change (cells other).parentJoint = none
    rw [old other notAdded.2]
    exact chained.fresh other notAdded.1

theorem addJoint (chained : arm.Chained) {joint : JointRef} (allocated : joint < arm.next)
    (outside : joint ∉ arm.joints) : (arm.addJoint joint).Chained := by
  rw [Arm2d.addJoint]
  cases last : arm.joints.getLast? with
  | none =>
      apply chained.append allocated outside (fun _ _ => rfl)
      rw [chained.fresh joint outside, last]
  | some parent =>
      apply chained.append allocated outside (fun other different =>
        Function.update_of_ne different _ _)
      rw [Function.update_self, last]
      rfl

section Steps

variable [Field K] [LinearOrder K] [MathTrig K]

theorem stepJoint (chained : arm.Chained) {stack : ℕ} {tip toTarget : Vector3D K}
    {joint : JointRef} {next : Arm2d K}
    (stepped : IKSolver.stepJoint stack tip toTarget arm joint = some next) : next.Chained := by
  rw [IKSolver.stepJoint] at stepped
  rcases Option.bind_eq_some_iff.mp stepped with ⟨pose, -, adjusted⟩
  rcases Option.bind_eq_some_iff.mp adjusted with ⟨base, -, changed⟩
  cases changed
  exact chained.setJoint joint rfl

theorem step (chained : arm.Chained) {stack : ℕ} {target : Vector3D K} {final : Arm2d K}
    (stepped : IKSolver.step stack target arm = some final) : final.Chained := by
  have loop : ∀ (tip toTarget : Vector3D K) (order : List JointRef) (arm final : Arm2d K),
      arm.Chained → order.foldlM (IKSolver.stepJoint stack tip toTarget) arm = some final →
        final.Chained := by
    intro tip toTarget order
    induction order with
    | nil =>
        intro arm final chained ended
        cases ended
        exact chained
    | cons joint rest ih =>
        intro arm final chained ended
        rw [List.foldlM_cons] at ended
        rcases Option.bind_eq_some_iff.mp ended with ⟨next, stepped, later⟩
        exact ih next final (chained.stepJoint stepped) later
  rw [IKSolver.step, IKSolver.stepThrough] at stepped
  rcases Option.bind_eq_some_iff.mp stepped with ⟨pose, -, ready⟩
  rcases Option.bind_eq_some_iff.mp ready with ⟨tip, -, ended⟩
  exact loop tip _ _ arm final chained ended

/-- No event separates the list from the parent references. -/
theorem run (chained : arm.Chained) {event : ArmEvent K} {final : Arm2d K}
    (happened : event.run arm = some final) : final.Chained := by
  cases event with
  | newJoint lenght alfa =>
      cases happened
      exact chained.allocate rfl
  | addJoint joint =>
      rcases Option.ite_none_right_eq_some.mp happened with ⟨⟨allocated, outside⟩, ⟨⟩⟩
      exact chained.addJoint allocated outside
  | setBase base =>
      cases happened
      exact ⟨chained.nodup, chained.allocated, chained.first, chained.parent, chained.fresh⟩
  | setLenght joint lenght =>
      rcases Option.ite_none_right_eq_some.mp happened with ⟨-, ⟨⟩⟩
      exact chained.setJoint joint rfl
  | setAlfa joint alfa =>
      rcases Option.ite_none_right_eq_some.mp happened with ⟨-, ⟨⟩⟩
      exact chained.setJoint joint rfl
  | changeAlfa joint delta =>
      rcases Option.ite_none_right_eq_some.mp happened with ⟨-, ⟨⟩⟩
      exact chained.setJoint joint rfl
  | setAlfaOffset joint alfaOffset =>
      rcases Option.ite_none_right_eq_some.mp happened with ⟨-, ⟨⟩⟩
      exact chained.setJoint joint rfl
  | solve stack target => exact chained.step happened

end Steps

end Arm2d.Chained

end Invariant

section Results

variable {K : Type} [Field K] [LinearOrder K] [MathTrig K] {arm : Arm2d K}

theorem Arm2d.chained_of_run {events : List (ArmEvent K)}
    (run : runEvents ArmEvent.run events Arm2d.new = some arm) : arm.Chained :=
  runEvents_invariant Arm2d.Chained (fun _ _ _ chained happened => chained.run happened)
    Chained.new run

/-- The tip of the arm is the tip pose of its last joint, every joint begins at the tip pose of
the one before it, and its global angle is the sum of the angles up to it. -/
theorem arm2d_poses {events : List (ArmEvent K)}
    (run : runEvents ArmEvent.run events Arm2d.new = some arm) {stack : ℕ}
    (deep : arm.joints.length ≤ stack) :
    (∀ last, arm.joints.getLast? = some last →
      arm.getTip stack = Joint2d.getTipPose arm stack last) ∧
    (∀ first, arm.joints.head? = some first →
      Joint2d.getBasePose arm stack first = some arm.base) ∧
    (∀ i before joint, arm.joints[i]? = some before → arm.joints[i + 1]? = some joint →
      Joint2d.getBasePose arm stack joint = Joint2d.getTipPose arm stack before) ∧
    ∀ i joint, arm.joints[i]? = some joint →
      Joint2d.getGlobalAlfa arm stack joint =
        some (((arm.joints.take (i + 1)).map fun other =>
          (arm.joint other).alfa + (arm.joint other).alfaOffset).sum) := by
  have chained := Arm2d.chained_of_run run
  have inside : ∀ {i joint}, arm.joints[i]? = some joint → i < arm.joints.length :=
    fun found => (List.getElem?_eq_some_iff.mp found).1
  refine ⟨?_, ?_, ?_, ?_⟩
  · intro last isLast
    have nonempty : arm.joints ≠ [] := by
      intro empty
      simp [empty] at isLast
    rw [List.getLast?_eq_getElem?] at isLast
    have below := inside isLast
    have all : arm.links.take (arm.joints.length - 1 + 1) = arm.links :=
      List.take_of_length_le (by simp [Arm2d.links]; omega)
    rw [chained.getTip_eq nonempty deep, chained.getTipPose_eq isLast (by omega), all]
  · intro first isFirst
    rw [List.head?_eq_getElem?] at isFirst
    have below := inside isFirst
    rw [chained.getBasePose_eq isFirst (by omega), if_pos rfl]
  · intro i before joint foundBefore found
    have below := inside found
    rw [chained.getTipPose_eq foundBefore (by omega), chained.getBasePose_eq found (by omega),
      if_neg (Nat.succ_ne_zero i)]
  · intro i joint found
    have below := inside found
    rw [chained.getGlobalAlfa_eq found (by omega), Link.direction, Arm2d.links, ← List.map_take,
      List.map_map]
    rfl

/-- Exactly the steps in which no joint is disturbed by others use the pose in which they began.
-/
theorem usesInitialPose_iff [IsStrictOrderedRing K] {events : List (ArmEvent K)}
    (run : runEvents ArmEvent.run events Arm2d.new = some arm) {stack : ℕ}
    (deep : arm.joints.length ≤ stack) (target : Vector3D K) :
    IKSolver.UsesInitialPose stack target arm ↔ IKSolver.Undisturbed stack target arm :=
  IKSolver.usesInitialPose_iff_of_chained (Arm2d.chained_of_run run) deep target

end Results

section StraightArms

/-- The construction of an arm of unit links that lies along the first axis. -/
def straight (links : ℕ) : List (ArmEvent ℝ) :=
  (List.range links).flatMap (fun joint => [.newJoint 1 0, .addJoint joint]) ++
    [.setBase (some ⟨0, 0, 0⟩)]

noncomputable def twoJointArm : Arm2d ℝ :=
  ((((Arm2d.new.allocate (Joint2d.new 1 0)).addJoint 0).allocate (Joint2d.new 1 0)).addJoint
    1).setBase (some ⟨0, 0, 0⟩)

theorem twoJointArm_run :
    runEvents ArmEvent.run (straight 2) Arm2d.new = some twoJointArm := rfl

theorem arm2d_poses_twoJoints :
    twoJointArm.getTip 2 = Joint2d.getTipPose twoJointArm 2 1 ∧
      Joint2d.getBasePose twoJointArm 2 1 = Joint2d.getTipPose twoJointArm 2 0 := by
  have poses := arm2d_poses twoJointArm_run (le_refl 2)
  exact ⟨poses.1 1 rfl, poses.2.2.1 0 0 1 rfl rfl⟩

theorem usesInitialPose_iff_oneJoint :
    ∃ arm, runEvents ArmEvent.run (straight 1) Arm2d.new = some arm ∧
      IKSolver.UsesInitialPose 1 ⟨2, 100, 0⟩ arm := by
  refine ⟨_, rfl, ?_⟩
  apply (usesInitialPose_iff (rfl : runEvents ArmEvent.run (straight 1) Arm2d.new = some _)
    (le_refl 1) _).mpr
  exact IKSolver.undisturbed_of_singleton (rfl : _ = [0]) _

theorem twoJointArm_baseOf :
    twoJointArm.baseOf ⟨0, 0, 0⟩ 0 = ⟨0, 0, 0⟩ ∧ twoJointArm.baseOf ⟨0, 0, 0⟩ 1 = ⟨1, 0, 0⟩ ∧
      Link.reach ⟨0, 0, 0⟩ twoJointArm.links = ⟨2, 0, 0⟩ := by
  have links : twoJointArm.links = [⟨0 + 0, 1⟩, ⟨0 + 0, 1⟩] := rfl
  have joints : twoJointArm.joints = [0, 1] := rfl
  have step : ∀ first : ℝ, Vector3D.add ⟨first, 0, 0⟩ (Link.vector 0 ⟨0, 1⟩) =
      (⟨first + 1, 0, 0⟩ : Vector3D ℝ) := by
    intro first
    simp [Vector3D.add, Link.vector, MathTrig.cos, MathTrig.sin, MathTrig.toRadians]
  refine ⟨?_, ?_, ?_⟩
  · simp [Arm2d.baseOf, joints, Link.reach]
  · simp [Arm2d.baseOf, joints, links, Link.reach, step]
  · simp [links, Link.reach, step]
    norm_num

/-- Turned by its gradient, the first joint takes the second one along. -/
theorem twoJointArm_moved (gradient : JointRef → ℝ) (steep : gradient 0 = -200) :
    (IKSolver.turned gradient (twoJointArm.joints.take 1).toFinset twoJointArm).baseOf
        ⟨0, 0, 0⟩ 1 =
      ⟨Real.cos (5 / 180 * Real.pi), Real.sin (5 / 180 * Real.pi), 0⟩ := by
  have joints : (IKSolver.turned gradient (twoJointArm.joints.take 1).toFinset
      twoJointArm).joints = [0, 1] := rfl
  have links : (IKSolver.turned gradient (twoJointArm.joints.take 1).toFinset
      twoJointArm).links.take 1 =
        [⟨((Joint2d.new 1 0).changeAlfa (-gradient 0 / ((10 : ℕ) : ℝ))).alfa + 0, 1⟩] := rfl
  have turn : ((Joint2d.new 1 0).changeAlfa (-gradient 0 / ((10 : ℕ) : ℝ))).alfa = 5 := by
    rw [steep]
    norm_num [Joint2d.changeAlfa, Joint2d.setAlfa, Joint2d.new]
  rw [turn] at links
  simp [Arm2d.baseOf, joints, links, Link.reach, Link.vector, Vector3D.add, MathTrig.cos,
    MathTrig.sin, MathTrig.toRadians]

/-- The first joint turns by five degrees, and the second one then starts from elsewhere. -/
theorem twoJointArm_disturbed :
    ¬IKSolver.RecordsInitialGradients 2 ⟨2, 100, 0⟩ twoJointArm ∧
      ¬IKSolver.UsesInitialPose 2 ⟨2, 100, 0⟩ twoJointArm := by
  have chained := Arm2d.chained_of_run twoJointArm_run
  have deep : twoJointArm.joints.length ≤ 2 := le_rfl
  have based : twoJointArm.base = some ⟨0, 0, 0⟩ := rfl
  have nonempty : twoJointArm.joints ≠ [] := List.cons_ne_nil 0 [1]
  suffices disturbed : ¬IKSolver.RecordsInitialGradients 2 ⟨2, 100, 0⟩ twoJointArm from
    ⟨disturbed, fun uses => disturbed uses.1⟩
  rw [IKSolver.recordsInitialGradients_iff_of_chained chained deep]
  intro moves
  rcases twoJointArm_baseOf with ⟨first, second, tip⟩
  let gradient : JointRef → ℝ := fun joint =>
    IKSolver.gradientAt ⟨2, 0, 0⟩ ⟨0, 100, 0⟩ (twoJointArm.baseOf ⟨0, 0, 0⟩ joint)
  have toTarget : Vector3D.sub ⟨2, 100, 0⟩ ⟨2, 0, 0⟩ = (⟨0, 100, 0⟩ : Vector3D ℝ) := by
    simp [Vector3D.sub]
  have initial := (IKSolver.forall_initial_iff chained based nonempty deep _ _).mp moves
  rw [tip, toTarget] at initial
  have along := (IKSolver.forall_poses_iff chained based deep
    (by decide : 1 ∈ [0, 1]) gradient _ _).mp (initial gradient (fun _ _ => rfl) 1 1 rfl)
  have steep : gradient 0 = -200 := by
    norm_num [gradient, first, IKSolver.gradientAt, Vector3D.sub, Vector3D.cross,
      Vector3D.dot, IKSolver.axis]
  rw [twoJointArm_moved gradient steep, second] at along
  have turned : Real.cos (5 / 180 * Real.pi) = 1 := by
    simpa [Vector3D.sub, Vector3D.cross, sub_eq_zero] using along
  have pi := Real.pi_pos
  rw [Real.cos_eq_one_iff_of_lt_of_lt (by linarith) (by linarith)] at turned
  linarith

end StraightArms

end MrsOptimization
