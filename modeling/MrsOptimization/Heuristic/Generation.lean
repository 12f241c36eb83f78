import MrsOptimization.Heuristic.AgentHeap
import MrsOptimization.Heuristic.Missions
import MrsOptimization.Library.MachineInt
import MrsOptimization.Library.SubsetMask
import Mathlib.Tactic.IntervalCases

/-!
# Generation of the candidate agents

`Project.generateAgents` runs through all bit masks below `1 << n`, decodes each
from its zero-padded binary string and keeps the agents that `isAgentValid`
accepts. The decoding is the selection of `SubsetMask` (`decode_eq_select`), the
validity test is a property of the selected components alone
(`computes_isAgentValid`), and so the resulting list is the filtered list of
all selections (`generateAgents_run`).
-/

namespace MrsOptimization

/-- `Integer.toBinaryString` of a non-negative number. -/
def toBinaryString (i : ℕ) : List Char :=
  Nat.toDigits 2 i

/-- `String.format("%" + compNum + "s", toBinaryString(i)).replaceAll("\\s", "0")`. -/
def binaryPattern (compNum i : ℕ) : List Char :=
  let digits := toBinaryString i
  (List.replicate (compNum - digits.length) ' ' ++ digits).map fun c =>
    if c.isWhitespace then '0' else c

/-- The `int` expression `x << n`. -/
def shiftLeft32 (x : ℤ) (n : ℕ) : ℤ :=
  wrap 32 (x * 2 ^ (n % 32))

/-- The values of `i` in `for (int i = 1; i < (1 << compNum); i++)`. -/
def masks (compNum : ℕ) : List ℕ :=
  List.range' 1 (shiftLeft32 1 compNum - 1).toNat

section Decoding

theorem isWhitespace_digitChar {digit : ℕ} (binary : digit < 2) :
    (Nat.digitChar digit).isWhitespace = false := by
  interval_cases digit <;> decide

theorem binaryPattern_of_lt_two {compNum i : ℕ} (small : i < 2) :
    binaryPattern compNum i = List.replicate (compNum - 1) '0' ++ [Nat.digitChar i] := by
  simp [binaryPattern, toBinaryString, Nat.toDigits_of_lt_base small,
    isWhitespace_digitChar small, show (' ' : Char).isWhitespace = true by decide]

theorem binaryPattern_succ {compNum : ℕ} (width : 1 ≤ compNum) (i : ℕ) :
    binaryPattern (compNum + 1) i =
      binaryPattern compNum (i / 2) ++ [Nat.digitChar (i % 2)] := by
  by_cases small : i < 2
  · have half : i / 2 = 0 := by omega
    have self : i % 2 = i := by omega
    rw [half, self, binaryPattern_of_lt_two small, binaryPattern_of_lt_two (by omega)]
    congr 1
    rw [Nat.add_sub_cancel, show Nat.digitChar 0 = '0' by decide, ← List.replicate_succ']
    congr 1
    omega
  · have digits : toBinaryString i = toBinaryString (i / 2) ++ [Nat.digitChar (i % 2)] :=
      Nat.toDigits_of_base_le (by omega) (by omega)
    simp only [binaryPattern, digits, List.length_append, List.length_singleton,
      Nat.add_sub_add_right, List.map_append, List.map_singleton,
      isWhitespace_digitChar (Nat.mod_lt i two_pos), List.append_assoc]
    simp

theorem length_binaryPattern {compNum i : ℕ} (width : 1 ≤ compNum) (below : i < 2 ^ compNum) :
    (binaryPattern compNum i).length = compNum := by
  have short : (toBinaryString i).length ≤ compNum :=
    (Nat.length_toDigits_le_iff (by omega) (by omega)).mpr below
  simp [binaryPattern]
  omega

/-- Indexed from the right, the pattern shows the bits of the mask. -/
theorem binaryPattern_getElem? {compNum i j : ℕ} (below : i < 2 ^ compNum) (column : j < compNum) :
    (binaryPattern compNum i)[compNum - j - 1]? = some (if i.testBit j then '1' else '0') := by
  induction compNum generalizing i j with
  | zero => omega
  | succ width ih =>
      rcases Nat.eq_zero_or_pos width with rfl | positive
      · have lone : j = 0 := by omega
        subst lone
        rw [binaryPattern_of_lt_two (by simpa using below)]
        have binary : i < 2 := by simpa using below
        interval_cases i <;> decide
      · rw [binaryPattern_succ positive]
        have halfBelow : i / 2 < 2 ^ width := by
          rw [pow_succ] at below
          omega
        rcases j with _ | j
        · have last : width + 1 - 0 - 1 = (binaryPattern width (i / 2)).length := by
            rw [length_binaryPattern positive halfBelow]
            omega
          rw [last, List.getElem?_concat_length, Nat.testBit_zero]
          rcases Nat.mod_two_eq_zero_or_one i with even | odd
          · rw [even]; decide
          · rw [odd]; decide
        · have inner : width + 1 - (j + 1) - 1 = width - j - 1 := by omega
          rw [inner, List.getElem?_append_left (by
            rw [length_binaryPattern positive halfBelow]
            omega), ih halfBelow (by omega), Nat.testBit_succ]

theorem shiftLeft32_one {compNum : ℕ} (noOverflow : compNum ≤ 30) :
    shiftLeft32 1 compNum = 2 ^ compNum := by
  have lower : (1 : ℤ) ≤ 2 ^ compNum := one_le_pow₀ (by norm_num)
  have upper : (2 : ℤ) ^ compNum < 2 ^ 31 := pow_lt_pow_right₀ (by norm_num) (by omega)
  rw [shiftLeft32, Nat.mod_eq_of_lt (by omega), one_mul]
  apply wrap_of_mem_range _ upper
  exact le_trans (by norm_num) lower

theorem masks_eq {compNum : ℕ} (noOverflow : compNum ≤ 30) :
    masks compNum = List.range' 1 (2 ^ compNum - 1) := by
  have cast : ((2 ^ compNum - 1 : ℤ)).toNat = 2 ^ compNum - 1 := by
    have natural : (2 : ℤ) ^ compNum = ((2 ^ compNum : ℕ) : ℤ) := by norm_cast
    rw [natural]
    generalize 2 ^ compNum = power
    omega
  rw [masks, shiftLeft32_one noOverflow, cast]

/-- Whatever the shift overflows to, every mask of the loop selects among the components. -/
theorem mem_masks {compNum mask : ℕ} (member : mask ∈ masks compNum) :
    1 ≤ mask ∧ mask < 2 ^ compNum := by
  have shifted : shiftLeft32 1 compNum ≤ 2 ^ compNum := by
    have wrapped : shiftLeft32 1 compNum ≤ 1 * 2 ^ (compNum % 32) := wrap_le (by positivity)
    have exponent : compNum % 32 ≤ compNum := Nat.mod_le compNum 32
    have power : (2 : ℤ) ^ (compNum % 32) ≤ 2 ^ compNum :=
      pow_le_pow_right₀ (by norm_num) exponent
    exact wrapped.trans ((one_mul _).trans_le power)
  have natural : (2 : ℤ) ^ compNum = ((2 ^ compNum : ℕ) : ℤ) := (Nat.cast_pow 2 compNum).symm
  rw [masks, List.mem_range'_1] at member
  rw [natural] at shifted
  generalize 2 ^ compNum = power at *
  omega

end Decoding

section Validation

variable {Comp Miss K : Type} [DecidableEq Comp] [Field K] [LinearOrder K] [MathPow K]

/-- The test of one constraint that makes `isAgentValid` return `false`. -/
def Constraint.violatedBy (constr : Constraint Comp) (components : List Comp) : Bool :=
  match constr.type with
  | .exclude => constr.refComponents.any fun refComp => components.contains refComp
  | .dependAny => !(components.any fun comp => constr.refComponents.contains comp)

namespace Project

/-- The last loop of `isAgentValid`: the agent can perform at least one mission. -/
def performsSome (project : Project Comp Miss K) (agent : AgentRef) :
    List Miss → HeapM Comp K Bool
  | [] => return false
  | mis :: rest => do
      let performance ← Mission.performance project mis agent
      if 0 < performance then return true else performsSome project agent rest

def isAgentValid (project : Project Comp Miss K) (agent : AgentRef) : HeapM Comp K Bool := do
  let heap ← get
  let components := heap.components agent
  if components.any fun comp =>
      (project.component comp).constraints.any fun constr => constr.violatedBy components then
    return false
  else
    performsSome project agent project.missions

def addComponents (project : Project Comp Miss K) (pattern : List Char) (agent : AgentRef) :
    HeapM Comp K PUnit :=
  let compNum := project.components.length
  (List.range compNum).forM fun j =>
    match pattern[compNum - j - 1]?, project.components[j]? with
    | some bit, some comp => if bit = '1' then Agent.addComponent agent comp else return
    | _, _ => failure

def generateAgent (project : Project Comp Miss K) (i : ℕ) : HeapM Comp K PUnit := do
  let pattern := binaryPattern project.components.length i
  let agent ← Agent.new
  addComponents project pattern agent
  let valid ← isAgentValid project agent
  if valid then
    modify fun heap => { heap with agents := heap.agents ++ [agent] }
  else
    return

def generateAgents (project : Project Comp Miss K) : HeapM Comp K ℤ := do
  (masks project.components.length).forM (generateAgent project)
  return 0

structure IsCandidate (project : Project Comp Miss K) (components : List Comp) : Prop where
  /-- No component excludes a component of the agent. -/
  excludes : ∀ comp ∈ components, ∀ constr ∈ (project.component comp).constraints,
    constr.type = .exclude → ∀ refComp ∈ constr.refComponents, refComp ∉ components
  /-- Every dependency is met by a component of the agent. -/
  depends : ∀ comp ∈ components, ∀ constr ∈ (project.component comp).constraints,
    constr.type = .dependAny → ∃ refComp ∈ constr.refComponents, refComp ∈ components
  /-- The agent performs at least one mission. -/
  performs : ∃ mis ∈ project.missions, 0 < Mission.performanceOf project mis components

def acceptsComponents (project : Project Comp Miss K) (components : List Comp) : Bool :=
  !(components.any fun comp =>
      (project.component comp).constraints.any fun constr => constr.violatedBy components) &&
    project.missions.any fun mis => decide (0 < Mission.performanceOf project mis components)

end Project

theorem Constraint.violatedBy_eq_false {constr : Constraint Comp} {components : List Comp} :
    constr.violatedBy components = false ↔
      (constr.type = .exclude → ∀ refComp ∈ constr.refComponents, refComp ∉ components) ∧
      (constr.type = .dependAny → ∃ refComp ∈ constr.refComponents, refComp ∈ components) := by
  unfold violatedBy
  cases constr.type with
  | exclude => simp
  | dependAny =>
      simp only [Bool.not_eq_false', List.any_eq_true, List.contains_iff_mem, reduceCtorEq,
        false_implies, true_and, forall_const]
      exact ⟨fun ⟨comp, own, ref⟩ => ⟨comp, ref, own⟩, fun ⟨comp, ref, own⟩ => ⟨comp, own, ref⟩⟩

theorem Project.acceptsComponents_iff {project : Project Comp Miss K} {components : List Comp} :
    project.acceptsComponents components = true ↔ project.IsCandidate components := by
  simp only [acceptsComponents, Bool.and_eq_true, Bool.not_eq_true', List.any_eq_false,
    List.any_eq_true, not_exists, not_and, Bool.not_eq_true, Constraint.violatedBy_eq_false,
    decide_eq_true_eq]
  constructor
  · rintro ⟨constraints, performs⟩
    exact ⟨fun comp compMem constr constrMem => (constraints comp compMem constr constrMem).1,
      fun comp compMem constr constrMem => (constraints comp compMem constr constrMem).2, performs⟩
  · rintro ⟨excludes, depends, performs⟩
    exact ⟨fun comp compMem constr constrMem => ⟨excludes comp compMem constr constrMem,
      depends comp compMem constr constrMem⟩, performs⟩

variable {project : Project Comp Miss K} {live : AgentRef → Prop} {base : Heap Comp K}

omit [DecidableEq Comp] in
theorem computes_performsSome {agent : AgentRef} (isLive : live agent)
    (below : agent < base.next) (missions : List Miss) :
    Computes (Heap.Good project live base) (project.performsSome agent missions)
      (missions.any fun mis =>
        decide (0 < Mission.performanceOf project mis (base.components agent))) := by
  induction missions with
  | nil => exact Computes.pure false
  | cons mis rest ih =>
      rw [Project.performsSome, List.any_cons]
      refine Computes.bind (computes_performance mis isLive below) ?_
      by_cases positive : 0 < Mission.performanceOf project mis (base.components agent)
      · simpa [positive] using Computes.pure true
      · simpa [positive] using ih

theorem computes_isAgentValid {agent : AgentRef} (isLive : live agent)
    (below : agent < base.next) :
    Computes (Heap.Good project live base) (project.isAgentValid agent)
      (project.acceptsComponents (base.components agent)) := by
  refine Triple.bind (fun read heap =>
    read.components agent = base.components agent ∧ Heap.Good project live base heap)
    (Triple.getStore fun heap good => ⟨good.ext.components_eq below, good⟩) fun read => ?_
  rintro heap ⟨componentsEq, good⟩
  simp only [componentsEq]
  revert heap
  rw [Project.acceptsComponents]
  by_cases violated : (base.components agent).any fun comp =>
      (project.component comp).constraints.any fun constr =>
        constr.violatedBy (base.components agent)
  · simp only [violated, if_true, Bool.not_true, Bool.false_and]
    exact Computes.pure false
  · simp only [violated, Bool.false_eq_true, if_false, Bool.not_false, Bool.true_and]
    exact computes_performsSome isLive below project.missions

/-- The agents that one run of `generateAgents` accepts, by their components. -/
def Project.candidates (project : Project Comp Miss K) : List (List Comp) :=
  ((masks project.components.length).map (select project.components)).filter
    project.acceptsComponents

omit [DecidableEq Comp] [Field K] [LinearOrder K] [MathPow K] in
theorem addComponent_run (heap : Heap Comp K) (object : AgentObject Comp) (comp : Comp) :
    (Agent.addComponent heap.next comp).run (heap.add object) =
      some (PUnit.unit, heap.add ⟨object.components ++ [comp], object.creator⟩) := by
  change some (PUnit.unit, (heap.add object).setObject heap.next
    ⟨((heap.add object).object heap.next).components ++ [comp],
      ((heap.add object).object heap.next).creator⟩) = _
  rw [Heap.add_setObject, Heap.add_object_self]

omit [DecidableEq Comp] [Field K] [LinearOrder K] [MathPow K] in
theorem triple_addComponents (heap : Heap Comp K) (creator : Property → AgentRef) {mask : ℕ}
    (below : mask < 2 ^ project.components.length) :
    Triple (· = heap.add ⟨[], creator⟩)
      (project.addComponents (binaryPattern project.components.length mask) heap.next)
      fun _ final => final = heap.add ⟨select project.components mask, creator⟩ := by
  let added : List ℕ → List Comp := fun columns =>
    columns.filterMap fun j => if mask.testBit j then project.components[j]? else none
  rw [select_eq_filterMap_range]
  refine Triple.forM _ _ (fun columns final => final = heap.add ⟨added columns, creator⟩) ?_
  intro columns j rest split
  have column : j < project.components.length := by
    have member : j ∈ List.range project.components.length := by simp [split]
    simpa using member
  rintro final rfl
  rw [binaryPattern_getElem? below column, List.getElem?_eq_getElem column]
  by_cases selected : mask.testBit j
  · have appended : added (columns ++ [j]) = added columns ++ [project.components[j]] := by
      simp [added, selected, List.getElem?_eq_getElem column]
    refine ⟨⟨⟩, heap.add ⟨added (columns ++ [j]), creator⟩, ?_, rfl⟩
    rw [appended]
    simpa [selected] using addComponent_run heap ⟨added columns, creator⟩ project.components[j]
  · refine ⟨⟨⟩, heap.add ⟨added columns, creator⟩, ?_, ?_⟩
    · simp [selected]
    · simp [added, selected]

/-- One pass of the mask loop: the new agent joins the list if its components are accepted,
and a coherent heap stays coherent. -/
theorem triple_generateAgent (heap : Heap Comp K) {mask : ℕ}
    (below : mask < 2 ^ project.components.length) :
    Triple (· = heap) (project.generateAgent mask) fun _ final =>
      ∃ built : Heap Comp K,
        (heap.add ⟨select project.components mask, fun _ => heap.next⟩).Extends built ∧
        built.next = heap.next + 1 ∧
        (heap.Coherent project → built.Coherent project) ∧
        final = { built with agents :=
          if project.acceptsComponents (select project.components mask) then
            heap.agents ++ [heap.next]
          else heap.agents } := by
  let own : Property → AgentRef := fun _ => heap.next
  let added : Heap Comp K := heap.add ⟨select project.components mask, own⟩
  let live : AgentRef → Prop := fun agent =>
    agent = heap.next ∨ heap.Coherent project ∧ agent < heap.next
  have good : Heap.Good project live added added := by
    refine ⟨?_, Heap.Extends.refl added, rfl⟩
    rintro agent (rfl | ⟨coherent, old⟩)
    · exact Heap.coherentAt_add_self fun property => Or.inl rfl
    · exact (coherent agent old).add_of_lt old _
  have componentsEq : added.components heap.next = select project.components mask := by
    rw [Heap.components, Heap.add_object_self]
  have validated : Computes (Heap.Good project live added)
      (project.isAgentValid heap.next)
      (project.acceptsComponents (select project.components mask)) :=
    componentsEq ▸ computes_isAgentValid (Or.inl rfl) (Nat.lt_succ_self heap.next)
  refine Triple.bind (fun agent final => agent = heap.next ∧ final = heap.add ⟨[], own⟩)
    ?_ fun agent => Triple.assuming ?_
  · rintro _ rfl
    exact ⟨_, _, rfl, rfl, rfl⟩
  rintro rfl
  refine Triple.bind _ (triple_addComponents heap own below) fun _ => ?_
  refine Triple.bind _ (Triple.consequence validated (fun final equal => equal ▸ good)
    fun _ _ holds => holds) fun valid => Triple.assuming ?_
  rintro rfl built builtGood
  have agentsEq : built.agents = heap.agents := builtGood.ext.agents_eq
  have keeps : heap.Coherent project → built.Coherent project := by
    intro coherent agent agentBelow
    apply builtGood.coherent agent
    rw [builtGood.next_eq] at agentBelow
    rcases Nat.lt_succ_iff_lt_or_eq.mp agentBelow with old | new
    · exact Or.inr ⟨coherent, old⟩
    · exact Or.inl new
  cases accepted : project.acceptsComponents (select project.components mask) with
  | true =>
      refine ⟨⟨⟩, _, rfl, built, builtGood.ext, builtGood.next_eq, keeps, ?_⟩
      simp [agentsEq]
  | false =>
      refine ⟨⟨⟩, built, rfl, built, builtGood.ext, builtGood.next_eq, keeps, ?_⟩
      simp [← agentsEq]

/-- What every heap satisfies between two calls of `generateAgents`. -/
structure Heap.Populated (project : Project Comp Miss K) (heap : Heap Comp K) : Prop where
  coherent : heap.Coherent project
  allocated : ∀ agent ∈ heap.agents, agent < heap.next
  components_sublist : ∀ agent ∈ heap.agents,
    (heap.components agent).Sublist project.components

/-- `heap` with some agents of the given components appended to the list of agents. -/
structure Heap.Generates (heap : Heap Comp K) (families : List (List Comp))
    (final : Heap Comp K) : Prop where
  next_le : heap.next ≤ final.next
  agents_eq : ∃ new, final.agents = heap.agents ++ new ∧
    (∀ agent ∈ new, heap.next ≤ agent ∧ agent < final.next) ∧
    new.map final.components = families
  components_eq : ∀ agent < heap.next, final.components agent = heap.components agent

theorem triple_generateAgents (project : Project Comp Miss K) (heap : Heap Comp K) :
    Triple (· = heap) project.generateAgents fun result final => result = 0 ∧
      heap.Generates project.candidates final ∧
      (heap.Coherent project → final.Coherent project) := by
  refine Triple.bind _ (Triple.consequence
    (Triple.forM (masks project.components.length) project.generateAgent
      (fun processed final => heap.Generates
          ((processed.map (select project.components)).filter project.acceptsComponents) final ∧
        (heap.Coherent project → final.Coherent project)) ?_)
    ?_ fun _ _ holds => holds) fun _ => ?_
  · rintro processed mask rest split current ⟨⟨nextLe, ⟨new, agentsEq, bounds, familyEq⟩,
      componentsEq⟩, keeps⟩
    have below : mask < 2 ^ project.components.length :=
      (mem_masks (split ▸ (by simp) : mask ∈ masks project.components.length)).2
    rcases triple_generateAgent current below current rfl with
      ⟨result, _, runs, built, ext, nextEq, builtKeeps, rfl⟩
    have newComponents : built.components current.next = select project.components mask := by
      rw [ext.components_eq (Nat.lt_succ_self current.next), Heap.components,
        Heap.add_object_self]
    have oldComponents : ∀ agent < current.next,
        built.components agent = current.components agent := fun agent agentBelow =>
      ((current.extends_add _).trans ext).components_eq agentBelow
    have nextBelow : current.next < built.next := nextEq ▸ Nat.lt_succ_self current.next
    refine ⟨result, _, runs, ⟨?_, ?_, ?_⟩, fun coherent agent agentBelow => ?_⟩
    · exact nextLe.trans nextBelow.le
    · have mapped : new.map built.components =
          (processed.map (select project.components)).filter project.acceptsComponents := by
        rw [← familyEq]
        apply List.map_congr_left
        intro agent agentMem
        exact oldComponents agent (bounds agent agentMem).2
      have wider : ∀ agent ∈ new, heap.next ≤ agent ∧ agent < built.next :=
        fun agent agentMem =>
          ⟨(bounds agent agentMem).1, (bounds agent agentMem).2.trans nextBelow⟩
      rw [List.map_append, List.filter_append, ← mapped]
      cases accepted : project.acceptsComponents (select project.components mask) with
      | true =>
          refine ⟨new ++ [current.next], ?_, ?_, ?_⟩
          · simp [agentsEq]
          · intro agent agentMem
            rcases List.mem_append.mp agentMem with old | latest
            · exact wider agent old
            · rw [List.mem_singleton.mp latest]
              exact ⟨nextLe, nextBelow⟩
          · change List.map built.components _ = _
            simp [accepted, newComponents]
      | false =>
          refine ⟨new, by simp [agentsEq], wider, ?_⟩
          change List.map built.components _ = _
          simp [accepted]
    · intro agent agentBelow
      exact (oldComponents agent (agentBelow.trans_le nextLe)).trans
        (componentsEq agent agentBelow)
    · have valid := builtKeeps (keeps coherent) agent agentBelow
      exact ⟨valid.creator_lt, valid.same_components, valid.cached⟩
  · rintro _ rfl
    exact ⟨⟨le_rfl, ⟨[], by simp⟩, fun _ _ => rfl⟩, fun coherent => coherent⟩
  · exact Triple.pure fun final holds => ⟨rfl, holds⟩

theorem generateAgents_populated (project : Project Comp Miss K) :
    Triple (Heap.Populated project) project.generateAgents fun _ =>
      Heap.Populated project := by
  intro heap populated
  rcases triple_generateAgents project heap heap rfl with
    ⟨result, final, runs, -, ⟨nextLe, ⟨new, agentsEq, bounds, familyEq⟩, componentsEq⟩, keeps⟩
  refine ⟨result, final, runs, keeps populated.coherent, ?_, ?_⟩
  · intro agent agentMem
    rcases List.mem_append.mp (agentsEq ▸ agentMem) with old | added
    · exact (populated.allocated agent old).trans_le nextLe
    · exact (bounds agent added).2
  · intro agent agentMem
    rcases List.mem_append.mp (agentsEq ▸ agentMem) with old | added
    · rw [componentsEq agent (populated.allocated agent old)]
      exact populated.components_sublist agent old
    · have member : final.components agent ∈ project.candidates :=
        familyEq ▸ List.mem_map_of_mem added
      rcases List.mem_map.mp (List.mem_of_mem_filter member) with ⟨mask, -, selected⟩
      exact selected ▸ select_sublist project.components mask

theorem generateAgents_run (project : Project Comp Miss K) {heap : Heap Comp K}
    (noAgents : heap.agents = []) :
    ∃ final, project.generateAgents.run heap = some (0, final) ∧
      final.agents.map final.components = project.candidates := by
  rcases triple_generateAgents project heap heap rfl with
    ⟨result, final, runs, rfl, ⟨-, ⟨new, agentsEq, -, familyEq⟩, -⟩, -⟩
  rw [noAgents, List.nil_append] at agentsEq
  exact ⟨final, runs, agentsEq ▸ familyEq⟩

/-- The mask of a set of components: bit `j` is set when it contains the `j`-th component. -/
def Project.bitMask (project : Project Comp Miss K) (components : List Comp) : ℕ :=
  maskOf (· ∈ components) project.components

theorem Project.mem_candidates {project : Project Comp Miss K}
    (noOverflow : project.components.length ≤ 30) {components : List Comp} :
    components ∈ project.candidates ↔
      (∃ mask, 1 ≤ mask ∧ mask < 2 ^ project.components.length ∧
        select project.components mask = components) ∧ project.IsCandidate components := by
  have positive := Nat.one_le_two_pow (n := project.components.length)
  simp only [candidates, List.mem_filter, List.mem_map, masks_eq noOverflow, List.mem_range'_1,
    acceptsComponents_iff]
  constructor
  · rintro ⟨⟨mask, ⟨lower, upper⟩, selected⟩, valid⟩
    exact ⟨⟨mask, lower, by omega, selected⟩, valid⟩
  · rintro ⟨⟨mask, lower, upper, selected⟩, valid⟩
    exact ⟨⟨mask, ⟨lower, by omega⟩, selected⟩, valid⟩

theorem Project.candidates_pairwise {project : Project Comp Miss K}
    (nodup : project.components.Nodup) (noOverflow : project.components.length ≤ 30) :
    project.candidates.Pairwise fun left right =>
      project.bitMask left < project.bitMask right := by
  have positive := Nat.one_le_two_pow (n := project.components.length)
  apply List.Pairwise.filter
  rw [masks_eq noOverflow, List.pairwise_map]
  refine List.Pairwise.imp_of_mem ?_ List.pairwise_lt_range'
  intro left right leftMem rightMem less
  rw [List.mem_range'_1] at leftMem rightMem
  rw [bitMask, bitMask, maskOf_select nodup (by omega), maskOf_select nodup (by omega)]
  exact less

theorem Project.mem_candidates_iff_set {project : Project Comp Miss K}
    (nodup : project.components.Nodup) (noOverflow : project.components.length ≤ 30)
    (S : Finset Comp) :
    (∃ components ∈ project.candidates, components.toFinset = S) ↔
      S.Nonempty ∧ S ⊆ project.components.toFinset ∧
        project.IsCandidate (project.components.filter (· ∈ S)) := by
  constructor
  · rintro ⟨components, member, rfl⟩
    rcases (mem_candidates noOverflow).mp member with ⟨⟨mask, lower, upper, selected⟩, valid⟩
    have sub : components.Sublist project.components := selected ▸ select_sublist _ mask
    refine ⟨?_, fun comp compMem => ?_, ?_⟩
    · rw [List.toFinset_nonempty_iff]
      intro empty
      rw [← selected, select_eq_nil_iff upper] at empty
      omega
    · exact List.mem_toFinset.mpr (sub.subset (List.mem_toFinset.mp compMem))
    · simpa [filter_mem_of_sublist nodup sub] using valid
  · rintro ⟨nonempty, subset, valid⟩
    have setEq : (project.components.filter (· ∈ S)).toFinset = S := by
      ext comp
      simp only [List.mem_toFinset, List.mem_filter, decide_eq_true_eq, and_iff_right_iff_imp]
      exact fun member => List.mem_toFinset.mp (subset member)
    refine ⟨project.components.filter (· ∈ S), ?_, setEq⟩
    have selected := select_maskOf (· ∈ S) project.components
    refine (mem_candidates noOverflow).mpr ⟨⟨maskOf (· ∈ S) project.components, ?_,
      maskOf_lt _ _, selected⟩, valid⟩
    by_contra zero
    have noneSelected := (select_eq_nil_iff (maskOf_lt (· ∈ S) project.components)).mpr (by omega)
    rw [← setEq, ← selected, noneSelected] at nonempty
    simp at nonempty

/-- One run of `generateAgents` on an empty agent list leaves exactly one agent for every
non-empty candidate set of components, listed in project order, by increasing mask. -/
theorem generateAgents_family (project : Project Comp Miss K) {heap : Heap Comp K}
    (nodup : project.components.Nodup) (noOverflow : project.components.length ≤ 30)
    (noAgents : heap.agents = []) :
    ∃ final, project.generateAgents.run heap = some (0, final) ∧
      (∀ S : Finset Comp, (∃ agent ∈ final.agents, (final.components agent).toFinset = S) ↔
        S.Nonempty ∧ S ⊆ project.components.toFinset ∧
          project.IsCandidate (project.components.filter (· ∈ S))) ∧
      (final.agents.map fun agent => (final.components agent).toFinset).Nodup ∧
      (∀ agent ∈ final.agents, (final.components agent).Sublist project.components) ∧
      final.agents.Pairwise fun left right =>
        project.bitMask (final.components left) < project.bitMask (final.components right) := by
  rcases generateAgents_run project noAgents with ⟨final, runs, familyEq⟩
  have ordered := project.candidates_pairwise nodup noOverflow
  rw [← familyEq, List.pairwise_map] at ordered
  refine ⟨final, runs, ?_, ?_, ?_, ordered⟩
  · intro S
    rw [← project.mem_candidates_iff_set nodup noOverflow S, ← familyEq]
    simp
  · rw [List.Nodup, List.pairwise_map]
    refine ordered.imp fun {left right} less equal => ?_
    have sameMask : project.bitMask (final.components left) =
        project.bitMask (final.components right) := by
      apply maskOf_congr
      intro comp _
      rw [← List.mem_toFinset, equal, List.mem_toFinset]
    omega
  · intro agent agentMem
    have member : final.components agent ∈ project.candidates := by
      rw [← familyEq]
      exact List.mem_map_of_mem agentMem
    rcases (Project.mem_candidates noOverflow).mp member with ⟨⟨mask, -, -, selected⟩, -⟩
    exact selected ▸ select_sublist project.components mask

/-- The mower is a candidate, the mowing machine alone is not. -/
theorem generateAgents_family_grass :
    ∃ final, (grassTrimmingProject 100 1).generateAgents.run Heap.empty = some (0, final) ∧
      (∃ agent ∈ final.agents,
        (final.components agent).toFinset = {.mobileBase, .mowingMachine}) ∧
      ¬∃ agent ∈ final.agents, (final.components agent).toFinset = {.mowingMachine} := by
  have noAgents : (Heap.empty : Heap GrassComponent ℚ).agents = [] := rfl
  rcases generateAgents_family (grassTrimmingProject 100 1) (by decide) (by decide) noAgents with
    ⟨final, runs, family, -⟩
  refine ⟨final, runs, (family _).mpr ⟨by decide, by decide, ?_⟩, fun alone => ?_⟩
  · rw [← Project.acceptsComponents_iff]
    decide +kernel
  · have candidate := ((family _).mp alone).2.2
    rw [← Project.acceptsComponents_iff] at candidate
    revert candidate
    decide +kernel

end Validation

end MrsOptimization
