import MrsOptimization.Kinematics.Arm2d
import MrsOptimization.Library.SimultaneousUpdate

/-!
# A step of the kinematics solver

`IKSolver.step` takes the tip of the arm once and then turns one joint after the
other, while the base pose of every joint is computed anew from the joints before
it. So the gradient of a joint need not be the one of the pose in which the step
began.

`IKSolver.usesInitialPose_iff` says for which arms and targets it is nevertheless,
and the joints may then be processed in any order.
-/

namespace MrsOptimization

namespace IKSolver

section Methods

variable {K : Type} [Field K] [LinearOrder K] [MathTrig K]

def axis : Vector3D K :=
  ⟨0, 0, 1⟩

def gradientAt (tip toTarget base : Vector3D K) : K :=
  ((tip.sub base).cross axis).dot toTarget

/-- The changes of one joint, whose base pose is given. -/
def adjust (tip toTarget base : Vector3D K) (joint : Joint2d K) : Joint2d K :=
  let movement := (tip.sub base).cross axis
  let gradient := movement.dot toTarget
  let recorded : Joint2d K := { joint with
    auxVector := some (movement.mult (gradient / ((100 : ℕ) : K)))
    auxValue := some gradient }
  recorded.changeAlfa (-gradient / ((10 : ℕ) : K))

def stepJoint (stack : ℕ) (tip toTarget : Vector3D K) (arm : Arm2d K) (joint : JointRef) :
    Option (Arm2d K) := do
  let base ← (← Joint2d.getBasePose arm stack joint)
  return arm.setJoint joint (adjust tip toTarget base (arm.joint joint))

/-- A step that processes the joints in a given order. -/
def stepThrough (stack : ℕ) (target : Vector3D K) (order : List JointRef) (arm : Arm2d K) :
    Option (Arm2d K) := do
  let tip ← (← arm.getTip stack)
  let toTarget := target.sub tip
  order.foldlM (stepJoint stack tip toTarget) arm

def step (stack : ℕ) (target : Vector3D K) (arm : Arm2d K) : Option (Arm2d K) :=
  stepThrough stack target arm.joints arm

end Methods

section Specification

variable {K : Type} [Field K] [LinearOrder K] [MathTrig K]

/-- The gradient of a joint with both poses taken from the given arm. -/
def initialGradient (stack : ℕ) (target : Vector3D K) (arm : Arm2d K) (joint : JointRef) :
    Option K := do
  let tip ← (← arm.getTip stack)
  let base ← (← Joint2d.getBasePose arm stack joint)
  return ((tip.sub base).cross axis).dot (target.sub tip)

/-- The gradients that a step records are those of the arm before the step. -/
def RecordsInitialGradients (stack : ℕ) (target : Vector3D K) (arm : Arm2d K) : Prop :=
  ∀ final, step stack target arm = some final → ∀ joint ∈ arm.joints,
    (final.joint joint).auxValue = initialGradient stack target arm joint

/-- Moreover, the order in which joints are processed is without effect. -/
def UsesInitialPose (stack : ℕ) (target : Vector3D K) (arm : Arm2d K) : Prop :=
  RecordsInitialGradients stack target arm ∧
    ∀ order : List JointRef, order.Perm arm.joints →
      stepThrough stack target order arm = step stack target arm

/-- The arm in which some joints are already turned, by the given gradients. -/
def turned (gradient : JointRef → K) (joints : Finset JointRef) (arm : Arm2d K) : Arm2d K :=
  arm.withJoints fun joint =>
    if joint ∈ joints then (arm.joint joint).changeAlfa (-gradient joint / ((10 : ℕ) : K))
    else arm.joint joint

/-- To turn other joints first does not move the base of a joint, or it has no gradient and is
moved along the line to the target only. -/
def Undisturbed (stack : ℕ) (target : Vector3D K) (arm : Arm2d K) : Prop :=
  ∀ (tip : Vector3D K) (gradient : JointRef → K), arm.getTip stack = some (some tip) →
    (∀ joint ∈ arm.joints, initialGradient stack target arm joint = some (gradient joint)) →
    ∀ joint ∈ arm.joints, ∀ others ⊆ arm.joints.toFinset.erase joint, ∀ base moved,
      Joint2d.getBasePose arm stack joint = some (some base) →
      Joint2d.getBasePose (turned gradient others arm) stack joint = some (some moved) →
      moved = base ∨
        gradient joint = 0 ∧ ((moved.sub base).cross (target.sub tip)).c = 0

/-- To turn the joints before a joint moves its base along the line to the target only. -/
def MovesAlong (stack : ℕ) (target : Vector3D K) (arm : Arm2d K) : Prop :=
  ∀ (tip : Vector3D K) (gradient : JointRef → K), arm.getTip stack = some (some tip) →
    (∀ joint ∈ arm.joints, initialGradient stack target arm joint = some (gradient joint)) →
    ∀ i joint, arm.joints[i]? = some joint → ∀ base moved,
      Joint2d.getBasePose arm stack joint = some (some base) →
      Joint2d.getBasePose (turned gradient (arm.joints.take i).toFinset arm) stack joint =
        some (some moved) →
      ((moved.sub base).cross (target.sub tip)).c = 0

end Specification

section Adjustment

variable {K : Type} [Field K] [LinearOrder K]

omit [LinearOrder K] in
/-- The gradient changes with the component of the displacement across the line to the
target. -/
theorem gradientAt_sub (tip toTarget base moved : Vector3D K) :
    gradientAt tip toTarget moved - gradientAt tip toTarget base =
      ((moved.sub base).cross toTarget).c := by
  simp only [gradientAt, Vector3D.sub, Vector3D.cross, Vector3D.dot, axis]
  ring

variable [IsStrictOrderedRing K]

theorem adjust_eq_iff {tip toTarget base moved : Vector3D K} (level : moved.c = base.c)
    (joint : Joint2d K) :
    adjust tip toTarget moved joint = adjust tip toTarget base joint ↔
      moved = base ∨ gradientAt tip toTarget base = 0 ∧
        ((moved.sub base).cross toTarget).c = 0 := by
  constructor
  · intro same
    have values : gradientAt tip toTarget moved = gradientAt tip toTarget base :=
      Option.some.inj (congrArg Joint2d.auxValue same)
    have vectors : ((tip.sub moved).cross axis).mult
          (gradientAt tip toTarget moved / ((100 : ℕ) : K)) =
        ((tip.sub base).cross axis).mult (gradientAt tip toTarget base / ((100 : ℕ) : K)) :=
      Option.some.inj (congrArg Joint2d.auxVector same)
    by_cases zero : gradientAt tip toTarget base = 0
    · right
      refine ⟨zero, ?_⟩
      rw [← gradientAt_sub tip, values, sub_self]
    · left
      have nonzero : gradientAt tip toTarget base / ((100 : ℕ) : K) ≠ 0 := by
        apply div_ne_zero zero
        norm_num
      rw [values] at vectors
      have first := mul_right_cancel₀ nonzero (congrArg Vector3D.a vectors)
      have second := mul_right_cancel₀ nonzero (congrArg Vector3D.b vectors)
      simp only [Vector3D.sub, Vector3D.cross, axis] at first second
      apply Vector3D.ext
      · linear_combination second
      · linear_combination -first
      · exact level
  · rintro (rfl | ⟨zero, across⟩)
    · rfl
    · have movedZero : gradientAt tip toTarget moved = 0 := by
        rw [← gradientAt_sub tip, zero, sub_zero] at across
        exact across
      simp only [gradientAt] at zero movedZero
      simp [adjust, zero, movedZero, Vector3D.mult]

end Adjustment

section Loop

variable {K : Type} [Field K] [LinearOrder K] [MathTrig K] {arm : Arm2d K}

/-- What a joint becomes when it is processed while the joints are as in `cells`. -/
def change (base tip toTarget : Vector3D K) (arm : Arm2d K) (cells : JointRef → Joint2d K)
    (joint : JointRef) : Joint2d K :=
  adjust tip toTarget ((arm.withJoints cells).baseOf base joint) (cells joint)

theorem foldlM_stepJoint (chained : arm.Chained) {base : Vector3D K} (based : arm.base = some base)
    {stack : ℕ} (deep : arm.joints.length ≤ stack) (tip toTarget : Vector3D K)
    {order : List JointRef} (own : ∀ joint ∈ order, joint ∈ arm.joints)
    {cells : JointRef → Joint2d K}
    (same : ∀ joint, (cells joint).parentJoint = (arm.joint joint).parentJoint) :
    order.foldlM (stepJoint stack tip toTarget) (arm.withJoints cells) =
      some (arm.withJoints (process (change base tip toTarget arm) order cells)) := by
  induction order generalizing cells with
  | nil => rfl
  | cons joint rest ih =>
      have pose := (chained.withJoints same).getBasePose_of_mem based
        (own joint List.mem_cons_self) deep
      have stepped : stepJoint stack tip toTarget (arm.withJoints cells) joint =
          some (arm.withJoints
            (Function.update cells joint (change base tip toTarget arm cells joint))) := by
        rw [stepJoint, pose]
        rfl
      rw [List.foldlM_cons, stepped, process_cons]
      apply ih fun other otherMem => own other (List.mem_cons_of_mem joint otherMem)
      intro other
      by_cases this : other = joint
      · subst this
        rw [Function.update_self]
        exact same other
      · rw [Function.update_of_ne this]
        exact same other

theorem stepThrough_eq (chained : arm.Chained) {base : Vector3D K} (based : arm.base = some base)
    (nonempty : arm.joints ≠ []) {stack : ℕ} (deep : arm.joints.length ≤ stack)
    (target : Vector3D K) {order : List JointRef} (own : ∀ joint ∈ order, joint ∈ arm.joints) :
    let tip := Link.reach base arm.links
    stepThrough stack target order arm =
      some (arm.withJoints (process (change base tip (target.sub tip) arm) order arm.joint)) := by
  have tipEq := chained.getTip_eq nonempty deep
  rw [based, Option.map_some] at tipEq
  rw [stepThrough, tipEq]
  exact foldlM_stepJoint chained based deep _ _ own fun _ => rfl

omit [LinearOrder K] in
theorem initialGradient_eq (chained : arm.Chained) {base : Vector3D K}
    (based : arm.base = some base) {stack : ℕ} (deep : arm.joints.length ≤ stack)
    (target : Vector3D K) {joint : JointRef} (jointMem : joint ∈ arm.joints) :
    let tip := Link.reach base arm.links
    initialGradient stack target arm joint =
      some (gradientAt tip (target.sub tip) (arm.baseOf base joint)) := by
  have tipEq := chained.getTip_eq (List.ne_nil_of_mem jointMem) deep
  rw [based, Option.map_some] at tipEq
  rw [initialGradient, tipEq, chained.getBasePose_of_mem based jointMem deep]
  rfl

variable {base : Vector3D K} {stack : ℕ}

theorem usesInitialPose_iff_process (chained : arm.Chained) (based : arm.base = some base)
    (nonempty : arm.joints ≠ []) (deep : arm.joints.length ≤ stack) (target : Vector3D K) :
    let tip := Link.reach base arm.links
    let update := change base tip (target.sub tip) arm
    UsesInitialPose stack target arm ↔
      ∀ order : List JointRef, order.Perm arm.joints →
        process update order arm.joint = process update arm.joints arm.joint := by
  intro tip update
  have steps := stepThrough_eq chained based nonempty deep target fun joint jointMem => jointMem
  constructor
  · rintro ⟨-, independent⟩ order perm
    have ordered := stepThrough_eq chained based nonempty deep target
      fun joint jointMem => perm.mem_iff.mp jointMem
    have same := (ordered.symm.trans (independent order perm)).trans steps
    exact congrArg Arm2d.joint (Option.some.inj same)
  · intro independent
    constructor
    · intro final stepped joint jointMem
      have finalEq := Option.some.inj (steps.symm.trans stepped)
      rw [initialGradient_eq chained based deep target jointMem, ← finalEq,
        process_eq_simultaneous_of_perm chained.nodup independent]
      simp only [Arm2d.withJoints_joint, simultaneous, List.mem_toFinset, jointMem, if_true]
      rfl
    · intro order perm
      have ordered := stepThrough_eq chained based nonempty deep target
        fun joint jointMem => perm.mem_iff.mp jointMem
      rw [step, steps, ordered, independent order perm]

/-- The other joints come out of their updates as if they were only turned. -/
theorem links_simultaneous (base tip toTarget : Vector3D K) (arm : Arm2d K)
    {gradient : JointRef → K} {others : Finset JointRef}
    (gradients : ∀ other ∈ others,
      gradient other = gradientAt tip toTarget (arm.baseOf base other)) :
    (arm.withJoints (simultaneous (change base tip toTarget arm) others arm.joint)).links =
      (turned gradient others arm).links := by
  apply List.map_congr_left
  intro joint _
  by_cases this : joint ∈ others
  · simp only [Arm2d.link, turned, Arm2d.withJoints_joint, simultaneous, if_pos this,
      gradients joint this]
    rfl
  · simp only [Arm2d.link, turned, Arm2d.withJoints_joint, simultaneous, if_neg this]

omit [MathTrig K] in
theorem turned_chained (chained : arm.Chained) (gradient : JointRef → K)
    (joints : Finset JointRef) : (turned gradient joints arm).Chained := by
  apply chained.withJoints
  intro joint
  split
  · rfl
  · rfl

section Quantities

omit [LinearOrder K] in
/-- What holds of the tip and the gradients before a step, in terms of the links. -/
theorem forall_initial_iff (chained : arm.Chained) (based : arm.base = some base)
    (nonempty : arm.joints ≠ []) (deep : arm.joints.length ≤ stack) (target : Vector3D K)
    (holds : Vector3D K → (JointRef → K) → Prop) :
    let tip := Link.reach base arm.links
    (∀ (reached : Vector3D K) (gradient : JointRef → K),
        arm.getTip stack = some (some reached) →
        (∀ joint ∈ arm.joints, initialGradient stack target arm joint = some (gradient joint)) →
        holds reached gradient) ↔
      ∀ gradient : JointRef → K,
        (∀ joint ∈ arm.joints,
          gradient joint = gradientAt tip (target.sub tip) (arm.baseOf base joint)) →
        holds tip gradient := by
  intro tip
  have tipEq : arm.getTip stack = some (some tip) := by
    rw [chained.getTip_eq nonempty deep, based]
    rfl
  have gradients : ∀ gradient : JointRef → K,
      (∀ joint ∈ arm.joints, initialGradient stack target arm joint = some (gradient joint)) ↔
        ∀ joint ∈ arm.joints,
          gradient joint = gradientAt tip (target.sub tip) (arm.baseOf base joint) := by
    intro gradient
    refine forall₂_congr fun joint jointMem => ?_
    rw [initialGradient_eq chained based deep target jointMem, Option.some.injEq]
    exact eq_comm
  simp only [gradients, tipEq, Option.some.injEq, forall_eq', forall_comm (α := Vector3D K)]

/-- What holds of the base poses of a joint, in terms of the links. -/
theorem forall_poses_iff (chained : arm.Chained) (based : arm.base = some base)
    (deep : arm.joints.length ≤ stack) {joint : JointRef} (jointMem : joint ∈ arm.joints)
    (gradient : JointRef → K) (joints : Finset JointRef)
    (holds : Vector3D K → Vector3D K → Prop) :
    (∀ start moved, Joint2d.getBasePose arm stack joint = some (some start) →
        Joint2d.getBasePose (turned gradient joints arm) stack joint = some (some moved) →
        holds start moved) ↔
      holds (arm.baseOf base joint) ((turned gradient joints arm).baseOf base joint) := by
  rw [chained.getBasePose_of_mem based jointMem deep,
    (turned_chained chained gradient joints).getBasePose_of_mem based jointMem deep]
  simp

end Quantities

section Gradients

variable {tip toTarget : Vector3D K}

/-- The gradient that is recorded for the joint at some place in the list. -/
def recorded (base tip toTarget : Vector3D K) (arm : Arm2d K) (i : ℕ) (joint : JointRef) : K :=
  gradientAt tip toTarget ((arm.withJoints
    (process (change base tip toTarget arm) (arm.joints.take i) arm.joint)).baseOf base joint)

/-- In the loop over the list, a joint is changed by the gradient recorded for it. -/
theorem process_take_eq (base tip toTarget : Vector3D K) (nodup : arm.joints.Nodup)
    {i count : ℕ} {joint : JointRef} (found : arm.joints[i]? = some joint) (passed : i < count) :
    ∃ pose, process (change base tip toTarget arm) (arm.joints.take count) arm.joint joint =
        adjust tip toTarget pose (arm.joint joint) ∧
      gradientAt tip toTarget pose = recorded base tip toTarget arm i joint := by
  have foundTake : (arm.joints.take count)[i]? = some joint := by
    rw [List.getElem?_take_of_lt passed, found]
  rcases List.getElem?_eq_some_iff.mp foundTake with ⟨inside, valueEq⟩
  have split : arm.joints.take count =
      arm.joints.take i ++ joint :: (arm.joints.take count).drop (i + 1) := by
    conv_lhs => rw [← List.take_append_drop i (arm.joints.take count), List.take_take,
      min_eq_left passed.le, List.drop_eq_getElem_cons inside, valueEq]
  have distinct : (arm.joints.take i ++ joint :: (arm.joints.take count).drop (i + 1)).Nodup :=
    split ▸ nodup.sublist (List.take_sublist count arm.joints)
  rw [List.nodup_append, List.nodup_cons] at distinct
  have notBefore : joint ∉ arm.joints.take i := by
    intro before
    exact distinct.2.2 joint before joint List.mem_cons_self rfl
  rw [split, process_visited distinct.2.1.1, change, process_of_notMem notBefore]
  exact ⟨_, rfl, rfl⟩

/-- As long as the recorded gradients are the given ones, the joints before a place are turned
by them. -/
theorem recorded_eq (nodup : arm.joints.Nodup) {gradient : JointRef → K} {i : ℕ}
    {joint : JointRef} (found : arm.joints[i]? = some joint)
    (before : ∀ k other, k < i → arm.joints[k]? = some other →
      recorded base tip toTarget arm k other = gradient other) :
    recorded base tip toTarget arm i joint = gradientAt tip toTarget
      ((turned gradient (arm.joints.take i).toFinset arm).baseOf base joint) := by
  have index : arm.joints.idxOf joint = i := by
    rcases List.getElem?_eq_some_iff.mp found with ⟨inside, rfl⟩
    exact nodup.idxOf_getElem i inside
  have links : (arm.withJoints (process (change base tip toTarget arm) (arm.joints.take i)
        arm.joint)).links.take i =
      (turned gradient (arm.joints.take i).toFinset arm).links.take i := by
    simp only [Arm2d.links, ← List.map_take]
    apply List.map_congr_left
    intro other otherMem
    have inTake : other ∈ arm.joints.take i := otherMem
    rcases List.mem_take_iff_getElem.mp inTake with ⟨k, kBelow, valueEq⟩
    have otherFound : arm.joints[k]? = some other := by
      rw [← valueEq]
      exact List.getElem?_eq_getElem (by omega)
    rcases process_take_eq base tip toTarget nodup otherFound (by omega : k < i) with
      ⟨pose, changed, gradientEq⟩
    rw [before k other (by omega) otherFound] at gradientEq
    simp only [Arm2d.link, Arm2d.withJoints_joint, changed, turned, List.mem_toFinset, inTake,
      if_true, ← gradientEq]
    rfl
  simp only [recorded, Arm2d.baseOf, index, links, Arm2d.withJoints_joints]
  rw [turned, Arm2d.withJoints_joints, index]

/-- All gradients are recorded as they were before if and only if every base moves along the
line to the target. -/
theorem recorded_eq_iff (nodup : arm.joints.Nodup) (gradient : JointRef → K)
    (gradients : ∀ joint ∈ arm.joints,
      gradient joint = gradientAt tip toTarget (arm.baseOf base joint)) :
    (∀ i joint, arm.joints[i]? = some joint →
        recorded base tip toTarget arm i joint = gradient joint) ↔
      ∀ i joint, arm.joints[i]? = some joint →
        ((((turned gradient (arm.joints.take i).toFinset arm).baseOf base joint).sub
          (arm.baseOf base joint)).cross toTarget).c = 0 := by
  constructor
  · intro same i joint found
    have here := same i joint found
    rw [recorded_eq nodup found fun k other _ otherFound => same k other otherFound,
      gradients joint (List.mem_of_getElem? found)] at here
    rw [← gradientAt_sub tip, here, sub_self]
  · intro along i
    -- The joints before the place are turned by the initial gradients.
    induction i using Nat.strong_induction_on with
    | _ i ih =>
        intro joint found
        have across := along i joint found
        rw [← gradientAt_sub tip, sub_eq_zero] at across
        rw [recorded_eq nodup found fun k other below otherFound => ih k below other otherFound,
          across, gradients joint (List.mem_of_getElem? found)]

end Gradients

section Displacement

variable [IsStrictOrderedRing K] {tip toTarget : Vector3D K}

/-- When a joint is processed after others, only the displacement of its base matters. -/
theorem change_simultaneous_iff (gradient : JointRef → K)
    (gradients : ∀ joint ∈ arm.joints,
      gradient joint = gradientAt tip toTarget (arm.baseOf base joint))
    {joint : JointRef} (jointMem : joint ∈ arm.joints) {others : Finset JointRef}
    (sub : others ⊆ arm.joints.toFinset.erase joint) :
    let update := change base tip toTarget arm
    let moved := (turned gradient others arm).baseOf base joint
    update (simultaneous update others arm.joint) joint = update arm.joint joint ↔
      moved = arm.baseOf base joint ∨
        gradient joint = 0 ∧ ((moved.sub (arm.baseOf base joint)).cross toTarget).c = 0 := by
  intro update moved
  have own : ∀ other ∈ others, other ≠ joint ∧ other ∈ arm.joints := by
    intro other otherMem
    simpa using sub otherMem
  have links := links_simultaneous base tip toTarget arm
    fun other otherMem => gradients other (own other otherMem).2
  have displaced : (arm.withJoints (simultaneous update others arm.joint)).baseOf base joint =
      moved := by
    simp only [Arm2d.baseOf, update, links]
    rfl
  have untouched : simultaneous update others arm.joint joint = arm.joint joint :=
    if_neg fun jointOther => (own joint jointOther).1 rfl
  have level : moved.c = (arm.baseOf base joint).c := by
    simp only [moved, Arm2d.baseOf, Link.reach_c]
  rw [gradients joint jointMem, ← adjust_eq_iff level (arm.joint joint), ← displaced]
  simp only [update, change, untouched]
  rfl

theorem undisturbed_iff (chained : arm.Chained) (based : arm.base = some base)
    (nonempty : arm.joints ≠ []) (deep : arm.joints.length ≤ stack) (target : Vector3D K) :
    let tip := Link.reach base arm.links
    let update := change base tip (target.sub tip) arm
    Undisturbed stack target arm ↔
      ∀ joint ∈ arm.joints, ∀ others ⊆ arm.joints.toFinset.erase joint,
        update (simultaneous update others arm.joint) joint = update arm.joint joint := by
  intro tip update
  apply (forall_initial_iff chained based nonempty deep target _).trans
  constructor
  · intro undisturbed joint jointMem others sub
    let gradient : JointRef → K := fun joint =>
      gradientAt tip (target.sub tip) (arm.baseOf base joint)
    have gradients : ∀ joint ∈ arm.joints,
        gradient joint = gradientAt tip (target.sub tip) (arm.baseOf base joint) :=
      fun _ _ => rfl
    apply (change_simultaneous_iff gradient gradients jointMem sub).mpr
    exact (forall_poses_iff chained based deep jointMem gradient others _).mp
      (undisturbed gradient gradients joint jointMem others sub)
  · intro unchanged gradient gradients joint jointMem others sub
    apply (forall_poses_iff chained based deep jointMem gradient others fun start moved =>
      moved = start ∨
        gradient joint = 0 ∧ ((moved.sub start).cross (target.sub tip)).c = 0).mpr
    exact (change_simultaneous_iff gradient gradients jointMem sub).mp
      (unchanged joint jointMem others sub)

omit [IsStrictOrderedRing K] in
/-- An arm without joints or without a base makes no step, and else has a tip. -/
theorem step_cases (chained : arm.Chained) (deep : arm.joints.length ≤ stack)
    (target : Vector3D K) :
    (∀ tip, arm.getTip stack ≠ some (some tip)) ∧
        (∀ order, stepThrough stack target order arm = none) ∨
      arm.joints ≠ [] ∧ ∃ base, arm.base = some base := by
  by_cases unready : arm.joints = [] ∨ arm.base = none
  · left
    have noTip := chained.getTip_ne deep unready
    refine ⟨noTip, fun order => ?_⟩
    rw [stepThrough]
    rcases reached : arm.getTip stack with _ | _ | tip
    · rfl
    · rfl
    · exact absurd reached (noTip tip)
  · right
    rw [not_or] at unready
    exact ⟨unready.1, Option.ne_none_iff_exists'.mp unready.2⟩

/-- A step uses the pose in which it began if and only if no joint is disturbed by others. -/
theorem usesInitialPose_iff_of_chained (chained : arm.Chained)
    (deep : arm.joints.length ≤ stack) (target : Vector3D K) :
    UsesInitialPose stack target arm ↔ Undisturbed stack target arm := by
  rcases step_cases chained deep target with ⟨noTip, noStep⟩ | ⟨nonempty, base, based⟩
  · constructor
    · intro _ tip gradient tipAt
      exact absurd tipAt (noTip tip)
    · intro _
      constructor
      · intro final stepped
        rw [step, noStep] at stepped
        cases stepped
      · intro order _
        rw [step, noStep, noStep]
  · apply (usesInitialPose_iff_process chained based nonempty deep target).trans
    apply (process_perm_iff chained.nodup).trans
    exact (undisturbed_iff chained based nonempty deep target).symm

omit [IsStrictOrderedRing K] in
theorem recordsInitialGradients_iff_recorded (chained : arm.Chained)
    (based : arm.base = some base) (nonempty : arm.joints ≠ [])
    (deep : arm.joints.length ≤ stack) (target : Vector3D K) :
    let tip := Link.reach base arm.links
    RecordsInitialGradients stack target arm ↔
      ∀ gradient : JointRef → K,
        (∀ joint ∈ arm.joints,
          gradient joint = gradientAt tip (target.sub tip) (arm.baseOf base joint)) →
        ∀ i joint, arm.joints[i]? = some joint →
          recorded base tip (target.sub tip) arm i joint = gradient joint := by
  intro tip
  let final := arm.withJoints
    (process (change base tip (target.sub tip) arm) arm.joints arm.joint)
  have stepped : step stack target arm = some final :=
    stepThrough_eq chained based nonempty deep target fun joint jointMem => jointMem
  have values : ∀ i joint, arm.joints[i]? = some joint →
      (final.joint joint).auxValue = some (recorded base tip (target.sub tip) arm i joint) := by
    intro i joint found
    have inside := (List.getElem?_eq_some_iff.mp found).1
    rcases process_take_eq base tip (target.sub tip) chained.nodup found inside with
      ⟨pose, changed, gradientEq⟩
    rw [List.take_length] at changed
    rw [Arm2d.withJoints_joint, changed, ← gradientEq]
    rfl
  constructor
  · intro records gradient gradients i joint found
    have jointMem := List.mem_of_getElem? found
    have same := records final stepped joint jointMem
    rw [values i joint found, initialGradient_eq chained based deep target jointMem,
      ← gradients joint jointMem] at same
    exact Option.some.inj same
  · intro recorded reached reachedEq joint jointMem
    rw [stepped] at reachedEq
    cases reachedEq
    rcases List.getElem?_of_mem jointMem with ⟨i, found⟩
    rw [values i joint found, initialGradient_eq chained based deep target jointMem]
    exact congrArg some (recorded _ (fun _ _ => rfl) i joint found)

omit [IsStrictOrderedRing K] in
/-- The gradients alone are those of the pose in which the step began if and only if every base
is moved along the line to the target. -/
theorem recordsInitialGradients_iff_of_chained (chained : arm.Chained)
    (deep : arm.joints.length ≤ stack) (target : Vector3D K) :
    RecordsInitialGradients stack target arm ↔ MovesAlong stack target arm := by
  rcases step_cases chained deep target with ⟨noTip, noStep⟩ | ⟨nonempty, base, based⟩
  · constructor
    · intro _ tip gradient tipAt
      exact absurd tipAt (noTip tip)
    · intro _ final stepped
      rw [step, noStep] at stepped
      cases stepped
  · apply (recordsInitialGradients_iff_recorded chained based nonempty deep target).trans
    apply Iff.trans _ (forall_initial_iff chained based nonempty deep target _).symm
    refine forall₂_congr fun gradient gradients => ?_
    apply (recorded_eq_iff chained.nodup gradient gradients).trans
    refine forall₃_congr fun i joint found => ?_
    exact (forall_poses_iff chained based deep (List.mem_of_getElem? found) gradient _
      fun start moved => ((moved.sub start).cross _).c = 0).symm

omit [IsStrictOrderedRing K] in
/-- A single joint is not disturbed. -/
theorem undisturbed_of_singleton {single : JointRef} (alone : arm.joints = [single])
    (target : Vector3D K) : Undisturbed stack target arm := by
  intro tip gradient _ _ joint jointMem others sub start moved startAt movedAt
  left
  have nothing : others = ∅ := by
    rw [alone] at jointMem sub
    rw [List.mem_singleton.mp jointMem] at sub
    simpa using sub
  have still : turned gradient others arm = arm := by
    simp [turned, nothing, Arm2d.withJoints]
  rw [still, startAt] at movedAt
  exact (Option.some.inj (Option.some.inj movedAt)).symm

end Displacement

end Loop

end IKSolver

end MrsOptimization
