import MrsOptimization.Heuristic.Generation
import MrsOptimization.Heuristic.GreenhouseMissions
import MrsOptimization.Library.FilledMaps

/-!
# The order of the components

The component map of an agent keeps, for every family, the last of its components in project
order. So the order in which a project lists its components decides which component the
missions find in an agent that has several of one family, and with it the performance of the
agent and whether there is such an agent at all.

`Project.orderIndependent_iff` says for which projects the order is without effect: those in
which no possible agent has a choice of components that makes a difference to a mission, and
which have no more components than the shift `1 << compNum` has bits for.
-/

namespace MrsOptimization

section Masks

/-- The number of components, from the first one on, whose sets the loop over the masks tries. -/
def maskWidth (compNum : ℕ) : ℕ :=
  if compNum % 32 = 31 then 0 else compNum % 32

theorem maskWidth_le (compNum : ℕ) : maskWidth compNum ≤ compNum := by
  rw [maskWidth]
  split <;> omega

theorem maskWidth_of_le {compNum : ℕ} (noOverflow : compNum ≤ 30) :
    maskWidth compNum = compNum := by
  rw [maskWidth]
  split <;> omega

theorem maskWidth_lt {compNum : ℕ} (overflow : 30 < compNum) : maskWidth compNum < compNum := by
  rw [maskWidth]
  split <;> omega

theorem masks_eq_range' (compNum : ℕ) :
    masks compNum = List.range' 1 (2 ^ maskWidth compNum - 1) := by
  have periodic : masks compNum = masks (compNum % 32) := by
    rw [masks, masks, shiftLeft32, shiftLeft32, Nat.mod_mod]
  rw [periodic, maskWidth]
  split
  · -- The shift into the sign bit gives a negative bound.
    rename_i sign
    rw [sign]
    decide
  · exact masks_eq (by omega)

end Masks

section Specification

variable {Comp Miss K : Type} [DecidableEq Comp] [Field K] [LinearOrder K] [MathPow K]

/-- A mission that asks an agent for the list of its components only searches this list. -/
def Mission.SearchesComponents (mission : Mission Comp K) : Prop :=
  ∀ performance, mission.getAgentPerformance = .ofComponents performance →
    ∀ left right : List Comp, (∀ comp, comp ∈ left ↔ comp ∈ right) →
      performance left = performance right

namespace Project

/-- Generation makes, in a new project, an agent of the given components for which the missions
compute the given performances. -/
def Builds (project : Project Comp Miss K) (components : Finset Comp) (performance : Miss → K) :
    Prop :=
  ∃ final, project.generateAgents.run Heap.empty = some (0, final) ∧
    ∃ agent ∈ final.agents, (final.components agent).toFinset = components ∧
      ∀ mis ∈ project.missions, ∃ after,
        (Mission.performance project mis agent).run final = some (performance mis, after)

def withComponents (project : Project Comp Miss K) (components : List Comp) :
    Project Comp Miss K :=
  { project with components := components }

/-- Whatever the order of the components is, there are the same agents, and they perform the
missions equally well. -/
def OrderIndependent (project : Project Comp Miss K) : Prop :=
  ∀ ordered : List Comp, ordered.Perm project.components →
    ∀ (components : Finset Comp) (performance : Miss → K),
      (project.withComponents ordered).Builds components performance ↔
        project.Builds components performance

def family (project : Project Comp Miss K) (comp : Comp) : String :=
  (project.component comp).family

/-- The performance of an agent in which a mission finds the components of the given map. -/
def performanceWith (project : Project Comp Miss K) (mis : Miss) (components : List Comp)
    (compMap : String → Option Comp) : K :=
  match (project.mission mis).getAgentPerformance with
  | .ofComponents performance => performance components
  | .ofComponentMap performance => performance compMap

def MeetsConstraints (project : Project Comp Miss K) (components : List Comp) : Prop :=
  ∀ comp ∈ components, ∀ constr ∈ (project.component comp).constraints,
    constr.violatedBy components = false

/-- The components meet their constraints, and perform a mission that finds the right ones. -/
structure MayWork (project : Project Comp Miss K) (components : List Comp) : Prop where
  meets : project.MeetsConstraints components
  performs : ∃ compMap, IsChoice project.family components compMap ∧
    ∃ mis ∈ project.missions, 0 < project.performanceWith mis components compMap

/-- In no agent that may work does it matter which of its components of one family the missions
find, and none is out of reach of the loop over the masks. -/
def ChoiceFree (project : Project Comp Miss K) : Prop :=
  ∀ components : List Comp, components ≠ [] → components.Sublist project.components →
    components.length ≤ maskWidth project.components.length → project.MayWork components →
      project.components.length ≤ 30 ∧
      ∀ left right, IsChoice project.family components left →
        IsChoice project.family components right → ∀ mis ∈ project.missions,
          project.performanceWith mis components left =
            project.performanceWith mis components right

end Project

end Specification

section Results

variable {Comp Miss K : Type} [Field K]

theorem areaCoverageMission_searchesComponents [DecidableEq Comp] (mobileBase workDevice : Comp)
    (areaSizeX areaSizeY workDensity mobileBaseSpeed workDeviceWidth : K) :
    (AreaCoverageMission mobileBase workDevice areaSizeX areaSizeY workDensity mobileBaseSpeed
      workDeviceWidth).SearchesComponents := by
  intro performance reader left right same
  cases reader
  simp only [List.contains_iff_mem, Bool.and_eq_true, same]

theorem transportationMission_searchesComponents [DecidableEq Comp] (mobileBase loader : Comp)
    (areaSizeX areaSizeY workDensity mobileBaseSpeed avgDist : K) :
    (TransportationMission mobileBase loader areaSizeX areaSizeY workDensity mobileBaseSpeed
      avgDist).SearchesComponents := by
  intro performance reader left right same
  cases reader
  simp only [List.contains_iff_mem, Bool.and_eq_true, same]

omit [Field K] in
/-- The greenhouse missions and `DummyMission` do not ask for the list. -/
theorem searchesComponents_of_componentMap {mission : Mission Comp K}
    {performance : (String → Option Comp) → K}
    (reader : mission.getAgentPerformance = .ofComponentMap performance) :
    mission.SearchesComponents := by
  intro other otherReader
  rw [reader] at otherReader
  cases otherReader

variable [DecidableEq Comp] [LinearOrder K] [MathPow K] {project : Project Comp Miss K}

namespace Project

omit [DecidableEq Comp] in
theorem performanceOf_eq (mis : Miss) (components : List Comp) :
    Mission.performanceOf project mis components =
      project.performanceWith mis components (fill project.family components) := by
  rw [Mission.performanceOf, performanceWith]
  rfl

omit [DecidableEq Comp] [Field K] [LinearOrder K] [MathPow K] in
theorem performanceWith_congr {mis : Miss} (searches : (project.mission mis).SearchesComponents)
    {left right : List Comp} (same : ∀ comp, comp ∈ left ↔ comp ∈ right)
    (compMap : String → Option Comp) :
    project.performanceWith mis left compMap = project.performanceWith mis right compMap := by
  rw [performanceWith, performanceWith]
  split
  · rename_i performance reader
    exact searches performance reader left right same
  · rfl

omit [LinearOrder K] [MathPow K] [Field K] in
theorem MeetsConstraints.of_mem_iff {left right : List Comp}
    (meets : project.MeetsConstraints left) (same : ∀ comp, comp ∈ left ↔ comp ∈ right) :
    project.MeetsConstraints right := by
  intro comp compMem constr constrMem
  have met := meets comp ((same comp).mpr compMem) constr constrMem
  rw [Constraint.violatedBy_eq_false] at met ⊢
  simpa only [same] using met

theorem acceptsComponents_iff_meets {components : List Comp} :
    project.acceptsComponents components = true ↔ project.MeetsConstraints components ∧
      ∃ mis ∈ project.missions, 0 < Mission.performanceOf project mis components := by
  simp only [acceptsComponents, MeetsConstraints, Bool.and_eq_true, Bool.not_eq_true',
    List.any_eq_false, List.any_eq_true, not_exists, not_and, Bool.not_eq_true,
    decide_eq_true_eq]

/-- The agents of a project, by components and performances, are its candidates. -/
theorem builds_iff {components : Finset Comp} {performance : Miss → K} :
    project.Builds components performance ↔
      ∃ candidate ∈ project.candidates, candidate.toFinset = components ∧
        ∀ mis ∈ project.missions,
          Mission.performanceOf project mis candidate = performance mis := by
  rcases triple_generateAgents project Heap.empty Heap.empty rfl with
    ⟨result, final, runs, rfl, ⟨-, ⟨new, agentsEq, bounds, familyEq⟩, -⟩, keeps⟩
  obtain rfl : new = final.agents := agentsEq.symm
  have good : Heap.Good project (· < final.next) final final :=
    ⟨keeps Heap.coherent_empty, Heap.Extends.refl final, rfl⟩
  have performs : ∀ agent ∈ final.agents, ∀ mis, ∃ after,
      (Mission.performance project mis agent).run final =
        some (Mission.performanceOf project mis (final.components agent), after) := by
    intro agent agentMem mis
    have below := (bounds agent agentMem).2
    have computed : Computes (Heap.Good project (· < final.next) final)
        (Mission.performance project mis agent)
        (Mission.performanceOf project mis (final.components agent)) :=
      computes_performance mis below below
    rcases computed final good with ⟨result, after, ran, rfl, -⟩
    exact ⟨after, ran⟩
  constructor
  · rintro ⟨other, otherRuns, agent, agentMem, rfl, performances⟩
    obtain rfl : final = other :=
      congrArg Prod.snd (Option.some.inj (runs.symm.trans otherRuns))
    refine ⟨final.components agent, familyEq ▸ List.mem_map_of_mem agentMem, rfl, ?_⟩
    intro mis misMem
    rcases performances mis misMem with ⟨after, ran⟩
    rcases performs agent agentMem mis with ⟨computedAfter, computed⟩
    exact congrArg Prod.fst (Option.some.inj (computed.symm.trans ran))
  · rintro ⟨candidate, member, rfl, performances⟩
    rw [← familyEq] at member
    rcases List.mem_map.mp member with ⟨agent, agentMem, rfl⟩
    refine ⟨final, runs, agent, agentMem, rfl, fun mis misMem => ?_⟩
    rw [← performances mis misMem]
    exact performs agent agentMem mis

theorem mem_candidates_iff_sublist (nodup : project.components.Nodup) {components : List Comp} :
    components ∈ project.candidates ↔
      (components ≠ [] ∧ components.Sublist
        (project.components.take (maskWidth project.components.length))) ∧
      project.acceptsComponents components = true := by
  have positive := Nat.one_le_two_pow (n := maskWidth project.components.length)
  rw [← exists_select_iff nodup (maskWidth_le _), candidates, List.mem_filter, List.mem_map]
  simp only [masks_eq_range', List.mem_range'_1, Nat.add_sub_cancel' positive]

/-- The agents of a project whose components are listed in another order. -/
theorem builds_withComponents_iff {ordered : List Comp} (perm : ordered.Perm project.components)
    (nodup : project.components.Nodup) {components : Finset Comp} {performance : Miss → K} :
    (project.withComponents ordered).Builds components performance ↔
      ∃ candidate : List Comp, (candidate ≠ [] ∧
          candidate.Sublist (ordered.take (maskWidth project.components.length))) ∧
        project.acceptsComponents candidate = true ∧ candidate.toFinset = components ∧
        ∀ mis ∈ project.missions,
          Mission.performanceOf project mis candidate = performance mis := by
  rw [builds_iff, ← perm.length_eq]
  constructor
  · rintro ⟨candidate, member, rest⟩
    rw [mem_candidates_iff_sublist (perm.nodup_iff.mpr nodup)] at member
    exact ⟨candidate, member.1, member.2, rest⟩
  · rintro ⟨candidate, inReach, accepted, rest⟩
    refine ⟨candidate, ?_, rest⟩
    exact (mem_candidates_iff_sublist (perm.nodup_iff.mpr nodup)).mpr ⟨inReach, accepted⟩

omit [Field K] [LinearOrder K] [MathPow K] in
/-- The components of an agent, listed in another order of the project's components. -/
theorem mem_relisted {ordered candidate : List Comp} (perm : ordered.Perm project.components)
    (own : ∀ comp ∈ candidate, comp ∈ project.components) (comp : Comp) :
    comp ∈ candidate ↔ comp ∈ ordered.filter (· ∈ candidate) := by
  simpa [perm.mem_iff] using own comp

/-- A valid agent may work, in whatever order its components are listed. -/
theorem mayWork_of_accepts
    (searches : ∀ mis ∈ project.missions, (project.mission mis).SearchesComponents)
    {candidate listed : List Comp} (accepted : project.acceptsComponents candidate = true)
    (same : ∀ comp, comp ∈ candidate ↔ comp ∈ listed) : project.MayWork listed := by
  rcases acceptsComponents_iff_meets.mp accepted with ⟨meets, mis, misMem, positive⟩
  refine ⟨meets.of_mem_iff same, fill project.family candidate, ?_, mis, misMem, ?_⟩
  · exact (isChoice_fill project.family candidate).of_mem_iff same
  · rw [← performanceWith_congr (searches mis misMem) same, ← performanceOf_eq]
    exact positive

omit [DecidableEq Comp] in
/-- Where the choice makes no difference, neither does the order. -/
theorem performanceOf_relisted {mis : Miss}
    (searches : (project.mission mis).SearchesComponents) {candidate listed relisted : List Comp}
    (same : ∀ comp, comp ∈ candidate ↔ comp ∈ listed)
    (sameRelisted : ∀ comp, comp ∈ candidate ↔ comp ∈ relisted)
    (agree : ∀ left right, IsChoice project.family listed left →
      IsChoice project.family listed right →
        project.performanceWith mis listed left = project.performanceWith mis listed right) :
    Mission.performanceOf project mis relisted = Mission.performanceOf project mis candidate := by
  have filled : IsChoice project.family listed (fill project.family candidate) :=
    (isChoice_fill project.family candidate).of_mem_iff same
  have refilled : IsChoice project.family listed (fill project.family relisted) :=
    (isChoice_fill project.family relisted).of_mem_iff fun comp =>
      (sameRelisted comp).symm.trans (same comp)
  rw [performanceOf_eq, performanceOf_eq, ← performanceWith_congr searches sameRelisted,
    performanceWith_congr searches same, performanceWith_congr searches same]
  exact agree _ _ refilled filled

/-- An agent of one order of the components is, with the same performances, one of every other. -/
theorem ChoiceFree.builds (free : project.ChoiceFree) (nodup : project.components.Nodup)
    (searches : ∀ mis ∈ project.missions, (project.mission mis).SearchesComponents)
    {ordered other : List Comp} (perm : ordered.Perm project.components)
    (otherPerm : other.Perm project.components) {components : Finset Comp}
    {performance : Miss → K}
    (builds : (project.withComponents ordered).Builds components performance) :
    (project.withComponents other).Builds components performance := by
  rw [builds_withComponents_iff perm nodup] at builds
  rcases builds with ⟨candidate, ⟨nonempty, sub⟩, accepted, rfl, performances⟩
  have subOrdered : candidate.Sublist ordered := sub.trans (List.take_sublist _ _)
  have own : ∀ comp ∈ candidate, comp ∈ project.components :=
    fun comp compMem => perm.mem_iff.mp (subOrdered.subset compMem)
  have sameListed := mem_relisted (List.Perm.refl _) own
  have sameRelisted := mem_relisted otherPerm own
  have candidateNodup : candidate.Nodup := (perm.nodup_iff.mpr nodup).sublist subOrdered
  have samePerm : (project.components.filter (· ∈ candidate)).Perm candidate := by
    rw [List.perm_ext_iff_of_nodup (nodup.sublist List.filter_sublist) candidateNodup]
    exact fun comp => (sameListed comp).symm
  have short : (project.components.filter (· ∈ candidate)).length ≤
      maskWidth project.components.length :=
    samePerm.length_eq.trans_le (sub.length_le.trans (List.length_take_le _ _))
  have listedNonempty : project.components.filter (· ∈ candidate) ≠ [] := by
    intro empty
    rw [empty, List.nil_perm] at samePerm
    exact nonempty samePerm
  rcases free _ listedNonempty List.filter_sublist short
    (mayWork_of_accepts searches accepted sameListed) with ⟨noOverflow, agree⟩
  have equal : ∀ mis ∈ project.missions,
      Mission.performanceOf project mis (other.filter (· ∈ candidate)) =
        Mission.performanceOf project mis candidate := by
    intro mis misMem
    apply performanceOf_relisted (searches mis misMem) sameListed sameRelisted
    exact fun left right leftChoice rightChoice =>
      agree left right leftChoice rightChoice mis misMem
  rw [builds_withComponents_iff otherPerm nodup]
  refine ⟨other.filter (· ∈ candidate), ⟨?_, ?_⟩, ?_, ?_, ?_⟩
  · rcases List.exists_mem_of_ne_nil candidate nonempty with ⟨comp, compMem⟩
    exact List.ne_nil_of_mem ((sameRelisted comp).mp compMem)
  · rw [maskWidth_of_le noOverflow, List.take_of_length_le otherPerm.length_eq.le]
    exact List.filter_sublist
  · rcases acceptsComponents_iff_meets.mp accepted with ⟨meets, mis, misMem, positive⟩
    rw [acceptsComponents_iff_meets]
    exact ⟨meets.of_mem_iff sameRelisted, mis, misMem, (equal mis misMem).symm ▸ positive⟩
  · ext comp
    rw [List.mem_toFinset, List.mem_toFinset, sameRelisted]
  · exact fun mis misMem => (equal mis misMem).trans (performances mis misMem)

/-- The components in an order that begins with the given ones. -/
def leading (project : Project Comp Miss K) (arranged : List Comp) : List Comp :=
  arranged ++ project.components.filter fun comp => !decide (comp ∈ arranged)

section Leading

variable {components arranged : List Comp} (nodup : project.components.Nodup)
  (sub : components.Sublist project.components)

include nodup sub

omit [Field K] [LinearOrder K] [MathPow K] in
theorem leading_perm (perm : arranged.Perm components) :
    (project.leading arranged).Perm project.components := by
  have chosen : project.components.filter (· ∈ arranged) = components := by
    simpa only [perm.mem_iff] using filter_mem_of_sublist nodup sub
  refine (List.Perm.append_right _ perm).trans ?_
  have split := List.filter_append_perm (fun comp => decide (comp ∈ arranged)) project.components
  rwa [chosen] at split

/-- The given components make an agent of the project in this order. -/
theorem builds_leading (perm : arranged.Perm components) (nonempty : arranged ≠ [])
    (short : arranged.length ≤ maskWidth project.components.length)
    (accepted : project.acceptsComponents arranged = true) :
    (project.withComponents (project.leading arranged)).Builds arranged.toFinset fun mis =>
      Mission.performanceOf project mis arranged := by
  rw [builds_withComponents_iff (leading_perm nodup sub perm) nodup]
  refine ⟨arranged, ⟨nonempty, ?_⟩, accepted, rfl, fun _ _ => rfl⟩
  exact (List.prefix_take_iff.mpr ⟨List.prefix_append _ _, short⟩).sublist

/-- Every agent of these components has their performances in this order. -/
theorem performanceOf_of_builds_leading (perm : arranged.Perm components) {performance : Miss → K}
    (builds : (project.withComponents (project.leading arranged)).Builds arranged.toFinset
      performance) :
    ∀ mis ∈ project.missions, Mission.performanceOf project mis arranged = performance mis := by
  have ordered := leading_perm nodup sub perm
  rw [builds_withComponents_iff ordered nodup] at builds
  rcases builds with ⟨candidate, ⟨-, inReach⟩, -, same, performances⟩
  have candidateSub : candidate.Sublist (project.leading arranged) :=
    inReach.trans (List.take_sublist _ _)
  have sameMem : ∀ comp, comp ∈ candidate ↔ comp ∈ arranged := by
    intro comp
    rw [← List.mem_toFinset, same, List.mem_toFinset]
  have equal : candidate = arranged := by
    rw [← filter_mem_of_sublist (ordered.nodup_iff.mpr nodup) candidateSub, leading,
      List.filter_append]
    simp [sameMem]
  exact equal ▸ performances

/-- A component of an agent that comes last in the order is out of reach of too narrow masks. -/
theorem OrderIndependent.length_le (independent : project.OrderIndependent)
    {performance : Miss → K} (nonempty : components ≠ [])
    (builds : project.Builds components.toFinset performance) :
    project.components.length ≤ 30 := by
  by_contra overflow
  have below := maskWidth_lt (not_le.mp overflow)
  rcases List.exists_mem_of_ne_nil components nonempty with ⟨comp, compMem⟩
  have own := sub.subset compMem
  have last : (project.components.erase comp ++ [comp]).Perm project.components :=
    List.perm_append_comm.trans (List.perm_cons_erase own).symm
  have others : maskWidth project.components.length ≤ (project.components.erase comp).length := by
    rw [List.length_erase_of_mem own]
    omega
  rw [← independent _ last, builds_withComponents_iff last nodup] at builds
  rcases builds with ⟨candidate, ⟨-, inReach⟩, -, same, -⟩
  rw [List.take_append_of_le_length others] at inReach
  have inCandidate : comp ∈ candidate := by
    rwa [← List.mem_toFinset, same, List.mem_toFinset]
  exact nodup.not_mem_erase (List.mem_of_mem_take (inReach.subset inCandidate))

/-- The performances of an agent are those that every choice of its components gives. -/
theorem OrderIndependent.performanceWith_eq (independent : project.OrderIndependent)
    (searches : ∀ mis ∈ project.missions, (project.mission mis).SearchesComponents)
    {performance : Miss → K} (builds : project.Builds components.toFinset performance)
    {compMap : String → Option Comp} (choice : IsChoice project.family components compMap) :
    ∀ mis ∈ project.missions,
      project.performanceWith mis components compMap = performance mis := by
  rcases choice.exists_perm_fill with ⟨arranged, perm, rfl⟩
  have rebuilt : (project.withComponents (project.leading arranged)).Builds arranged.toFinset
      performance := by
    rw [independent _ (leading_perm nodup sub perm), List.toFinset_eq_of_perm _ _ perm]
    exact builds
  intro mis misMem
  rw [← performanceOf_of_builds_leading nodup sub perm rebuilt mis misMem, performanceOf_eq,
    performanceWith_congr (searches mis misMem) fun comp => perm.mem_iff]

end Leading

theorem OrderIndependent.choiceFree (independent : project.OrderIndependent)
    (nodup : project.components.Nodup)
    (searches : ∀ mis ∈ project.missions, (project.mission mis).SearchesComponents) :
    project.ChoiceFree := by
  rintro components nonempty sub short ⟨meets, compMap, choice, mis, misMem, positive⟩
  rcases choice.exists_perm_fill with ⟨arranged, perm, rfl⟩
  have accepted : project.acceptsComponents arranged = true := by
    rw [acceptsComponents_iff_meets]
    refine ⟨meets.of_mem_iff fun comp => perm.mem_iff.symm, mis, misMem, ?_⟩
    rwa [performanceOf_eq, performanceWith_congr (searches mis misMem) fun comp => perm.mem_iff]
  have builds : project.Builds components.toFinset fun mis =>
      Mission.performanceOf project mis arranged := by
    rw [← independent _ (leading_perm nodup sub perm), ← List.toFinset_eq_of_perm _ _ perm]
    refine builds_leading nodup sub perm ?_ (perm.length_eq.trans_le short) accepted
    exact fun empty => nonempty (List.nil_perm.mp (empty ▸ perm))
  refine ⟨independent.length_le nodup sub nonempty builds, ?_⟩
  intro left right leftChoice rightChoice mis misMem
  rw [independent.performanceWith_eq nodup sub searches builds leftChoice mis misMem,
    independent.performanceWith_eq nodup sub searches builds rightChoice mis misMem]

/-- The order of the components is without effect if and only if no agent that may work has a
choice that makes a difference, or is out of reach. -/
theorem orderIndependent_iff (project : Project Comp Miss K) (nodup : project.components.Nodup)
    (searches : ∀ mis ∈ project.missions, (project.mission mis).SearchesComponents) :
    project.OrderIndependent ↔ project.ChoiceFree := by
  constructor
  · exact fun independent => independent.choiceFree nodup searches
  · intro free ordered perm components performance
    exact ⟨free.builds nodup searches perm (List.Perm.refl _),
      free.builds nodup searches (List.Perm.refl _) perm⟩

omit [MathPow K] in
/-- No order matters if the components are of different families. -/
theorem choiceFree_of_families (noOverflow : project.components.length ≤ 30)
    (injective : ∀ left ∈ project.components, ∀ right ∈ project.components,
      project.family left = project.family right → left = right) : project.ChoiceFree := by
  intro components nonempty sub short works
  refine ⟨noOverflow, fun left right leftChoice rightChoice mis misMem => ?_⟩
  rw [leftChoice.unique rightChoice fun first firstMem second secondMem =>
    injective first (sub.subset firstMem) second (sub.subset secondMem)]

/-- The components of the grass trimming project are of different families. -/
theorem orderIndependent_iff_grass : (grassTrimmingProject 100 1).OrderIndependent := by
  refine (orderIndependent_iff _ (by decide) fun mis _ => ?_).mpr
    (choiceFree_of_families (by decide) (by decide))
  cases mis with
  | mowing => exact areaCoverageMission_searchesComponents _ _ _ _ _ _ _
  | watching => exact searchesComponents_of_componentMap rfl

/-- With the precise ranger last there is an agent with both rangers, and with the other one last
there is none. -/
theorem not_orderIndependent_greenhouse : ¬(greenhouseProject (1 / 5)).OrderIndependent := by
  intro independent
  let ordered : List GreenhouseComponent := [.platformLight, .camera, .rangerRadio, .rangerLaser]
  have perm : ordered.Perm (greenhouseProject (1 / 5)).components := by decide
  have builds : ((greenhouseProject (1 / 5)).withComponents ordered).Builds ordered.toFinset
      fun mis => Mission.performanceOf (greenhouseProject (1 / 5)) mis ordered := by
    rw [builds_withComponents_iff perm (by decide)]
    exact ⟨ordered, by decide, by decide +kernel, rfl, fun _ _ => rfl⟩
  rw [independent ordered perm, builds_iff] at builds
  rcases builds with ⟨candidate, member, same, -⟩
  revert candidate
  decide +kernel

end Project

end Results

end MrsOptimization
