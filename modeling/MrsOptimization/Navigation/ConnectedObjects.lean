import MrsOptimization.Navigation.ColoringInvariant

/-!
# One colour for each connected object

The whole scan, from the invariant of its body: it never fails, and in the end the
colours of the foreground pixels tell the 4-connected objects of the bitmap apart.
-/

namespace MrsOptimization.Navigation

variable {random : ℕ → Color} {backColor : Color} {img : BufferedImage}
  {colorer : ObjectColorer} {state : Coloring}

/-- Every random colour that `doColoring` draws differs from the background and from the colours
in use. -/
def DrawsApart (random : ℕ → Color) (colorer : ObjectColorer) (img : BufferedImage) : Prop :=
  ∀ before point after state, img.points = before ++ point :: after →
    Coloring.scan random ⟨colorer, img⟩ before = some state →
    state.Draws point → state.NextApart random

def Foreground (backColor : Color) (img : BufferedImage) : Set Point :=
  {p | img.Contains p ∧ img.rgb p ≠ backColor}

theorem scanned_points : Scanned backColor img img.points = Foreground backColor img := by
  ext p
  exact and_congr_left fun _ => BufferedImage.mem_points

theorem invariant_fresh (notPalette : backColor ∉ palette) :
    Invariant backColor img [] ⟨ObjectColorer.fresh backColor, img⟩ := by
  have nothing : Scanned backColor img [] = ∅ := by
    ext p
    exact iff_of_false (fun scanned => by cases scanned.1) id
  refine ⟨rfl, rfl, rfl, fun _ _ => rfl, ?_, fun c => ?_, ?_, ?_, fun c => ?_, ?_⟩
  · rw [nothing]
    exact Labels.empty
  · rw [nothing]
    exact iff_of_false (by simp [ObjectColorer.fresh]) fun ⟨_, scanned, _⟩ => scanned.elim
  · have distinct : palette.Nodup := by decide
    exact distinct
  · exact notPalette
  · simp [ObjectColorer.fresh]
  · exact fun c list mapEq => by cases mapEq

theorem scan_append (first second : List Point) :
    Coloring.scan random state (first ++ second) =
      (Coloring.scan random state first).bind fun middle =>
        Coloring.scan random middle second := by
  rw [Coloring.scan, List.foldlM_append]
  rfl

theorem scan_invariant (notPalette : backColor ∉ palette)
    (apart : DrawsApart random (ObjectColorer.fresh backColor) img) (done after : List Point)
    (split : img.points = done ++ after) :
    ∃ state, Coloring.scan random ⟨ObjectColorer.fresh backColor, img⟩ done = some state ∧
      Invariant backColor img done state := by
  induction done using List.reverseRecOn generalizing after with
  | nil => exact ⟨_, rfl, invariant_fresh notPalette⟩
  | append_singleton done p ih =>
      have splitHere : img.points = done ++ p :: after := by simp [split]
      rcases ih (p :: after) splitHere with ⟨middle, scanned, inv⟩
      rcases inv.colorPixel random splitHere (apart done p after middle splitHere scanned) with
        ⟨last, pixel, invLast⟩
      refine ⟨last, ?_, invLast⟩
      rw [scan_append, scanned]
      simpa [Coloring.scan] using pixel

/-- `doColoring` gives two foreground pixels one colour exactly if they are connected, keeps the
background, and returns one colour for each object. -/
theorem doColoring_objects (random : ℕ → Color) (backColor : Color) (img : BufferedImage)
    (notPalette : backColor ∉ palette)
    (apart : DrawsApart random (ObjectColorer.fresh backColor) img) :
    ∃ usedColors last,
      ObjectColorer.doColoring random (ObjectColorer.fresh backColor) img =
        some (usedColors, last) ∧
      last.img.width = img.width ∧ last.img.height = img.height ∧
      (∀ p, img.Contains p → img.rgb p = backColor → last.img.rgb p = backColor) ∧
      (∀ p ∈ Foreground backColor img, ∀ q ∈ Foreground backColor img,
        (last.img.rgb p = last.img.rgb q ↔
          Connected Adjacent (Foreground backColor img) p q)) ∧
      usedColors.Nodup ∧
      ∀ c, c ∈ usedColors ↔ ∃ p ∈ Foreground backColor img, last.img.rgb p = c := by
  rcases scan_invariant notPalette apart img.points [] (List.append_nil _).symm with
    ⟨last, scanned, inv⟩
  refine ⟨last.colorer.usedColors, last, ?_, inv.width, inv.height, fun p _ background => ?_,
    fun p pMem q qMem => ?_, (List.nodup_append.mp inv.nodup).1, fun c => ?_⟩
  · rw [ObjectColorer.doColoring, scanned]
    rfl
  · rw [inv.untouched p fun scanned => scanned.2 background]
    exact background
  · rw [← scanned_points] at pMem qMem ⊢
    exact inv.labels.label_eq_iff pMem qMem
  · rw [inv.used, scanned_points]

/-- Two columns that a row connects. -/
def horseshoe : BufferedImage where
  width := 3
  height := 2
  rgb p := if p.x = 1 ∧ p.y = 0 then .white else .black

/-- The two columns get different colours first, and one colour in the end. -/
theorem doColoring_objects_horseshoe :
    ∃ usedColors last,
      ObjectColorer.doColoring (fun _ => .black) (ObjectColorer.fresh .white)
        horseshoe = some (usedColors, last) ∧
      (last.img.rgb ⟨0, 0⟩ = last.img.rgb ⟨2, 0⟩ ↔
        Connected Adjacent (Foreground .white horseshoe) ⟨0, 0⟩ ⟨2, 0⟩) := by
  have colorsLeft : ∀ k < 6, ((Coloring.scan (fun _ => .black)
      ⟨ObjectColorer.fresh .white, horseshoe⟩ (horseshoe.points.take k)).map
        fun state => state.colorer.colors.isEmpty) = some false := by
    decide +kernel
  have apart : DrawsApart (fun _ => .black) (ObjectColorer.fresh .white) horseshoe := by
    intro before point after state split scanned draws
    have shorter : before.length < 6 := by
      have lengths := congrArg List.length split
      rw [List.length_append, List.length_cons] at lengths
      have six : horseshoe.points.length = 6 := by decide
      omega
    have someLeft := colorsLeft before.length shorter
    rw [split, List.take_left, scanned, Option.map_some, draws.2.2.2] at someLeft
    cases someLeft
  rcases doColoring_objects (fun _ => .black) .white horseshoe (by decide) apart with
    ⟨usedColors, last, colored, -, -, -, objects, -⟩
  refine ⟨usedColors, last, colored, objects _ ?_ _ ?_⟩
  · exact ⟨⟨by decide, by decide⟩, by decide⟩
  · exact ⟨⟨by decide, by decide⟩, by decide⟩

end MrsOptimization.Navigation
