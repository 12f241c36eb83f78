import MrsOptimization.Navigation.ConnectedObjects

/-!
# The colours of the colourer

A colour is in use or free, and moves between the two lists when an object starts or is
merged into another one. Nothing checks the colours that enter: the palette may contain
the background, and a draw may yield it or a colour in use. These are the only ways for
two objects, or an object and the background, to get one colour.
-/

namespace MrsOptimization.Navigation

/-- The colours in use and the free ones are different colours, none of them the background. -/
structure ColorsApart (backColor : Color) (state : Coloring) : Prop where
  used : state.colorer.usedColors.Nodup
  free : state.colorer.colors.Nodup
  disjoint : ∀ c ∈ state.colorer.usedColors, c ∉ state.colorer.colors
  usedBack : backColor ∉ state.colorer.usedColors
  freeBack : backColor ∉ state.colorer.colors

/-- The pixel starts an object. -/
def Coloring.Starts (state : Coloring) (point : Point) : Prop :=
  (state.mask point).A ≠ state.colorer.backColor ∧
    (state.mask point).B = state.colorer.backColor ∧
    (state.mask point).C = state.colorer.backColor

/-- At each moment of the scan the colours are apart, and the colour that a new object gets is
neither the background nor the colour of another object. -/
structure KeepsColorsApart (random : ℕ → Color) (backColor : Color) (img : BufferedImage) :
    Prop where
  moments : ∀ done after state, img.points = done ++ after →
    Coloring.scan random ⟨ObjectColorer.fresh backColor, img⟩ done = some state →
    ColorsApart backColor state
  newObjects : ∀ done point after state next, img.points = done ++ point :: after →
    Coloring.scan random ⟨ObjectColorer.fresh backColor, img⟩ done = some state →
    state.Starts point → state.colorPixel random point = some next →
    next.img.rgb point ≠ backColor ∧
      ∀ other ∈ Scanned backColor img done, next.img.rgb other ≠ next.img.rgb point

variable {random : ℕ → Color} {backColor : Color} {img : BufferedImage} {state next : Coloring}

theorem Invariant.colorsApart {done : List Point} (inv : Invariant backColor img done state) :
    ColorsApart backColor state := by
  rcases List.nodup_append.mp inv.nodup with ⟨used, free, disjoint⟩
  refine ⟨used, free, fun c cUsed cFree => disjoint c cUsed c cFree rfl, ?_, ?_⟩
  · exact fun member => inv.backFree (List.mem_append_left _ member)
  · exact fun member => inv.backFree (List.mem_append_right _ member)

theorem colorPixel_of_starts {point : Point} (starts : state.Starts point) :
    state.colorPixel random point = state.startObject random point := by
  rw [Coloring.colorPixel, if_neg starts.1, if_pos starts.2]

theorem foldl_setColor_backColor (points : List Point) (color : Color) (state : Coloring) :
    (points.foldl (fun state point => state.setColor point color) state).colorer.backColor =
      state.colorer.backColor := by
  induction points generalizing state with
  | nil => rfl
  | cons point rest ih => exact ih (state.setColor point color)

theorem colorPixel_backColor {point : Point}
    (stepped : state.colorPixel random point = some next) :
    next.colorer.backColor = state.colorer.backColor := by
  rw [Coloring.colorPixel] at stepped
  split at stepped
  · rw [Option.some.inj stepped]
  split at stepped
  · rw [Coloring.startObject] at stepped
    split at stepped
    · cases stepped
    · rcases Option.some.inj stepped with rfl
      by_cases empty : state.colorer.colors.isEmpty <;> simp [Coloring.setColor, empty]
  split at stepped
  · rw [Coloring.mergeObjects] at stepped
    split at stepped
    · split at stepped
      all_goals
        rcases Option.some.inj stepped with rfl
        exact foldl_setColor_backColor _ _ _
    · cases stepped
  split at stepped
  · rcases Option.some.inj stepped with rfl
    rfl
  split at stepped
  all_goals
    rcases Option.some.inj stepped with rfl
    rfl

theorem scan_backColor {points : List Point}
    (scanned : Coloring.scan random state points = some next) :
    next.colorer.backColor = state.colorer.backColor := by
  induction points generalizing state with
  | nil =>
      rcases Option.some.inj scanned with rfl
      rfl
  | cons point rest ih =>
      rw [Coloring.scan, List.foldlM_cons] at scanned
      rcases Option.bind_eq_some_iff.mp scanned with ⟨middle, stepped, later⟩
      rw [ih later, colorPixel_backColor stepped]

/-- A new object takes a colour into use and paints its first pixel. -/
theorem startObject_spec {point : Point} (starts : state.startObject random point = some next) :
    ∃ color, next.colorer.usedColors = state.colorer.usedColors ++ [color] ∧
      next.img = state.img.setRGB point color ∧
      (state.colorer.colors = [] → color = random state.colorer.draws) := by
  rw [Coloring.startObject] at starts
  cases free : state.colorer.colors with
  | nil =>
      simp only [free, List.isEmpty_nil, if_true, Option.some.injEq] at starts
      subst starts
      exact ⟨_, rfl, rfl, fun _ => rfl⟩
  | cons newColor rest =>
      simp only [free, List.isEmpty_cons, Bool.false_eq_true, if_false, Option.some.injEq] at starts
      subst starts
      exact ⟨_, rfl, rfl, fun empty => by cases empty⟩

/-- If the colours are apart afterwards, the new object has a colour of its own. -/
theorem startObject_apart {point : Point} (starts : state.startObject random point = some next)
    (apart : ColorsApart backColor next) :
    ∃ color, next.img = state.img.setRGB point color ∧ color ≠ backColor ∧
      (∀ used ∈ state.colorer.usedColors, used ≠ color) ∧
      (state.colorer.colors = [] → color = random state.colorer.draws) := by
  rcases startObject_spec starts with ⟨color, usedEq, imgEq, drawn⟩
  have used := apart.used
  have usedBack := apart.usedBack
  rw [usedEq, List.nodup_append] at used
  rw [usedEq, List.mem_append, List.mem_singleton, not_or] at usedBack
  refine ⟨color, imgEq, Ne.symm usedBack.2, fun other otherUsed => ?_, drawn⟩
  exact used.2.2 other otherUsed color (List.mem_singleton_self color)

theorem scan_next {done : List Point} {point : Point} {start : Coloring}
    (scanned : Coloring.scan random start done = some state)
    (stepped : state.colorPixel random point = some next) :
    Coloring.scan random start (done ++ [point]) = some next := by
  rw [scan_append, scanned]
  simpa [Coloring.scan] using stepped

theorem invariant_of_scan (notPalette : backColor ∉ palette)
    (draws : DrawsApart random (ObjectColorer.fresh backColor) img) {done after : List Point}
    (split : img.points = done ++ after)
    (scanned : Coloring.scan random ⟨ObjectColorer.fresh backColor, img⟩ done = some state) :
    Invariant backColor img done state := by
  rcases scan_invariant notPalette draws done after split with ⟨same, scanned', inv⟩
  rcases Option.some.inj (scanned'.symm.trans scanned) with rfl
  exact inv

/-- The first pixel of a new object differs from all pixels of earlier objects. -/
theorem newObject_apart {done after : List Point} {point : Point}
    (split : img.points = done ++ point :: after) (inv : Invariant backColor img done state)
    (invNext : Invariant backColor img (done ++ [point]) next)
    (starts : state.startObject random point = some next) :
    next.img.rgb point ≠ backColor ∧
      ∀ other ∈ Scanned backColor img done, next.img.rgb other ≠ next.img.rgb point := by
  rcases startObject_apart starts invNext.colorsApart with ⟨color, imgEq, notBack, unused, -⟩
  have here : next.img.rgb point = color := by simp [imgEq, BufferedImage.setRGB]
  rw [here]
  refine ⟨notBack, fun other scannedOther => ?_⟩
  have old : next.img.rgb other = state.img.rgb other := by
    rw [imgEq]
    apply Function.update_of_ne
    rintro rfl
    have earlier := ((BufferedImage.mem_before split).mp scannedOther.1).2
    unfold Before at earlier
    omega
  rw [old]
  exact unused _ (inv.rgb_mem scannedOther)

theorem KeepsColorsApart.drawsApart (apart : KeepsColorsApart random backColor img) :
    DrawsApart random (ObjectColorer.fresh backColor) img := by
  intro before point after state split scanned draws
  have starts : state.Starts point := ⟨draws.1, draws.2.1, draws.2.2.1⟩
  have drawn : ∃ next, state.startObject random point = some next := by
    simp [Coloring.startObject, draws.2.2.2]
  rcases drawn with ⟨next, started⟩
  have later := apart.moments (before ++ [point]) after next (by simp [split])
    (scan_next scanned ((colorPixel_of_starts starts).trans started))
  rcases startObject_apart started later with ⟨color, -, notBack, unused, drawnEq⟩
  rcases drawnEq draws.2.2.2 with rfl
  refine ⟨?_, fun member => unused _ member rfl⟩
  rw [scan_backColor scanned]
  exact notBack

/-- The colours stay apart if and only if the background is not in the palette and every draw
yields a colour that is neither the background nor in use. -/
theorem keepsColorsApart_iff (random : ℕ → Color) (backColor : Color) (img : BufferedImage) :
    KeepsColorsApart random backColor img ↔
      backColor ∉ palette ∧ DrawsApart random (ObjectColorer.fresh backColor) img := by
  constructor
  · intro apart
    exact ⟨(apart.moments [] img.points _ rfl rfl).freeBack, apart.drawsApart⟩
  · rintro ⟨notPalette, draws⟩
    constructor
    · intro done after state split scanned
      exact (invariant_of_scan notPalette draws split scanned).colorsApart
    · intro done point after state next split scanned starts stepped
      have split' : img.points = (done ++ [point]) ++ after := by simp [split]
      have inv := invariant_of_scan notPalette draws split scanned
      have invNext := invariant_of_scan notPalette draws split' (scan_next scanned stepped)
      rw [colorPixel_of_starts starts] at stepped
      exact newObject_apart split inv invNext stepped

/-- Seven single pixels use up the palette; the eighth draws. -/
def islands : BufferedImage where
  width := 15
  height := 1
  rgb p := if p.x % 2 = 0 then .white else .black

/-- A red background is in the palette, and a black draw for the eighth object is the background
colour. -/
theorem not_keepsColorsApart :
    ¬KeepsColorsApart (fun _ => .white) ⟨255, 0, 0⟩ islands ∧
      ¬KeepsColorsApart (fun _ => .black) .black islands := by
  constructor
  · intro apart
    exact (apart.moments [] islands.points _ rfl rfl).freeBack (by decide)
  · intro apart
    have last : ∃ final, Coloring.scan (fun _ => .black)
        ⟨ObjectColorer.fresh .black, islands⟩ islands.points = some final ∧
          Color.black ∈ final.colorer.usedColors := by
      have ends : ((Coloring.scan (fun _ => .black) ⟨ObjectColorer.fresh .black, islands⟩
          islands.points).map fun final => decide (Color.black ∈ final.colorer.usedColors)) =
            some true := by
        decide +kernel
      rcases Option.map_eq_some_iff.mp ends with ⟨final, scanned, used⟩
      exact ⟨final, scanned, of_decide_eq_true used⟩
    rcases last with ⟨final, scanned, used⟩
    exact (apart.moments islands.points [] final (List.append_nil _).symm scanned).usedBack used

end MrsOptimization.Navigation
