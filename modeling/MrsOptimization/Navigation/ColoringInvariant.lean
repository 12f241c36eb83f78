import MrsOptimization.Navigation.ObjectColorer
import Mathlib.Data.List.Nodup

/-!
# Colours are labels of connected objects

While the bitmap is scanned, the colours of the foreground pixels already scanned are
a right labelling of their 4-connected components, the map lists the points of each
colour in use, and no colour is in use and free at once.
-/

namespace MrsOptimization.Navigation

def Adjacent (p q : Point) : Prop :=
  p.y = q.y ∧ (p.x + 1 = q.x ∨ q.x + 1 = p.x) ∨ p.x = q.x ∧ (p.y + 1 = q.y ∨ q.y + 1 = p.y)

theorem Adjacent.symm (p q : Point) (adjacent : Adjacent p q) : Adjacent q p := by
  unfold Adjacent at *
  omega

theorem Adjacent.irrefl (p : Point) : ¬Adjacent p p := by
  unfold Adjacent
  omega

def Before (p q : Point) : Prop :=
  p.y < q.y ∨ p.y = q.y ∧ p.x < q.x

/-- Of the neighbours of a pixel, the left and the upper one are scanned before it. -/
theorem adjacent_before_iff {p n : Point} :
    Adjacent p n ∧ Before n p ↔
      0 < p.x ∧ n = ⟨p.x - 1, p.y⟩ ∨ 0 < p.y ∧ n = ⟨p.x, p.y - 1⟩ := by
  rcases p with ⟨x, y⟩
  rcases n with ⟨u, v⟩
  simp only [Adjacent, Before, Point.mk.injEq]
  omega

namespace BufferedImage

variable {img : BufferedImage} {p q : Point}

theorem mem_points : p ∈ img.points ↔ img.Contains p := by
  rcases p with ⟨x, y⟩
  simp only [points, List.mem_flatMap, List.mem_map, List.mem_range, Point.mk.injEq, Contains]
  constructor
  · rintro ⟨j, jLt, i, iLt, rfl, rfl⟩
    exact ⟨iLt, jLt⟩
  · rintro ⟨xLt, yLt⟩
    exact ⟨y, yLt, x, xLt, rfl, rfl⟩

theorem points_pairwise (img : BufferedImage) : img.points.Pairwise Before := by
  rw [points, List.pairwise_flatMap]
  constructor
  · intro j _
    exact List.pairwise_map.mpr (List.pairwise_lt_range.imp fun iLt => Or.inr ⟨rfl, iLt⟩)
  · refine List.pairwise_lt_range.imp fun jLt p pMem q qMem => ?_
    rcases List.mem_map.mp pMem with ⟨_, _, rfl⟩
    rcases List.mem_map.mp qMem with ⟨_, _, rfl⟩
    exact Or.inl jLt

theorem mem_before {before after : List Point} (split : img.points = before ++ p :: after) :
    q ∈ before ↔ img.Contains q ∧ Before q p := by
  have ordered := img.points_pairwise
  rw [split, List.pairwise_append] at ordered
  rcases ordered with ⟨-, later, earlier⟩
  constructor
  · intro qMem
    refine ⟨mem_points.mp (split ▸ List.mem_append_left _ qMem),
      earlier q qMem p List.mem_cons_self⟩
  · rintro ⟨contains, qBefore⟩
    have member := mem_points.mpr contains
    rw [split, List.mem_append, List.mem_cons] at member
    rcases member with here | rfl | pBefore
    · exact here
    · unfold Before at qBefore
      omega
    · have pLt := List.rel_of_pairwise_cons later pBefore
      unfold Before at *
      omega

end BufferedImage

/-- The foreground pixels among some points. -/
def Scanned (backColor : Color) (img : BufferedImage) (done : List Point) : Set Point :=
  {p | p ∈ done ∧ img.rgb p ≠ backColor}

theorem scanned_append_foreground {backColor : Color} {img : BufferedImage} {done : List Point}
    {p : Point} (foreground : img.rgb p ≠ backColor) :
    Scanned backColor img (done ++ [p]) = Set.insert p (Scanned backColor img done) := by
  ext q
  constructor
  · rintro ⟨member, qForeground⟩
    rcases List.mem_append.mp member with earlier | here
    · exact Or.inr ⟨earlier, qForeground⟩
    · exact Or.inl (List.mem_singleton.mp here)
  · rintro (rfl | ⟨earlier, qForeground⟩)
    · exact ⟨by simp, foreground⟩
    · exact ⟨List.mem_append_left _ earlier, qForeground⟩

theorem scanned_append_background {backColor : Color} {img : BufferedImage} {done : List Point}
    {p : Point} (background : img.rgb p = backColor) :
    Scanned backColor img (done ++ [p]) = Scanned backColor img done := by
  ext q
  constructor
  · rintro ⟨member, qForeground⟩
    rcases List.mem_append.mp member with earlier | here
    · exact ⟨earlier, qForeground⟩
    · rw [List.mem_singleton.mp here] at qForeground
      exact absurd background qForeground
  · rintro ⟨earlier, qForeground⟩
    exact ⟨List.mem_append_left _ earlier, qForeground⟩

/-- What holds when the points `done` of the bitmap `img` have been scanned. -/
structure Invariant (backColor : Color) (img : BufferedImage) (done : List Point)
    (state : Coloring) : Prop where
  sameBack : state.colorer.backColor = backColor
  width : state.img.width = img.width
  height : state.img.height = img.height
  untouched : ∀ p, p ∉ Scanned backColor img done → state.img.rgb p = img.rgb p
  labels : Labels Adjacent (Scanned backColor img done) state.img.rgb
  used : ∀ c, c ∈ state.colorer.usedColors ↔
    ∃ p ∈ Scanned backColor img done, state.img.rgb p = c
  nodup : (state.colorer.usedColors ++ state.colorer.colors).Nodup
  backFree : backColor ∉ state.colorer.usedColors ++ state.colorer.colors
  mapped : ∀ c, (state.colorer.map c).isSome ↔ c ∈ state.colorer.usedColors
  listed : ∀ c list, state.colorer.map c = some list →
    ∀ p, p ∈ list ↔ p ∈ Scanned backColor img done ∧ state.img.rgb p = c

section Step

variable {backColor : Color} {img : BufferedImage} {done after : List Point} {p q : Point}
  {state : Coloring}

theorem Invariant.backColor_notMem (inv : Invariant backColor img done state) :
    backColor ∉ state.colorer.usedColors := fun member =>
  inv.backFree (List.mem_append_left _ member)

theorem Invariant.rgb_mem (inv : Invariant backColor img done state)
    (scanned : q ∈ Scanned backColor img done) :
    state.img.rgb q ∈ state.colorer.usedColors :=
  (inv.used _).mpr ⟨q, scanned, rfl⟩

theorem Invariant.rgb_ne_backColor_iff (inv : Invariant backColor img done state)
    (earlier : q ∈ done) : state.img.rgb q ≠ backColor ↔ q ∈ Scanned backColor img done := by
  by_cases scanned : q ∈ Scanned backColor img done
  · refine iff_of_true (fun same => inv.backColor_notMem ?_) scanned
    exact same ▸ inv.rgb_mem scanned
  · have background : img.rgb q = backColor := by
      by_contra foreground
      exact scanned ⟨earlier, foreground⟩
    exact iff_of_false (by rw [inv.untouched q scanned]; exact not_not.mpr background) scanned

/-- The mask shows the colours of the objects that the pixel touches. -/
theorem Invariant.touched_iff (inv : Invariant backColor img done state)
    (split : img.points = done ++ p :: after) (c : Color) :
    (∃ n ∈ Scanned backColor img done, Adjacent p n ∧ state.img.rgb n = c) ↔
      c ≠ backColor ∧ (c = (state.mask p).B ∨ c = (state.mask p).C) := by
  have contains : img.Contains p := BufferedImage.mem_points.mp (by simp [split])
  have scanned : ∀ n, img.Contains n → (Adjacent p n ∧ Before n p) →
      (state.img.rgb n ≠ backColor ↔ n ∈ Scanned backColor img done) := fun n nContains near =>
    inv.rgb_ne_backColor_iff ((BufferedImage.mem_before split).mpr ⟨nContains, near.2⟩)
  constructor
  · rintro ⟨n, nScanned, adjacent, rfl⟩
    have earlier := ((BufferedImage.mem_before split).mp nScanned.1).2
    refine ⟨(inv.rgb_ne_backColor_iff nScanned.1).mpr nScanned, ?_⟩
    rcases adjacent_before_iff.mp ⟨adjacent, earlier⟩ with ⟨inside, rfl⟩ | ⟨inside, rfl⟩
    · exact Or.inl (by simp [Coloring.mask, inside])
    · exact Or.inr (by simp [Coloring.mask, inside])
  · rintro ⟨foreground, rfl | rfl⟩
    · by_cases inside : 0 < p.x
      · have near := adjacent_before_iff.mpr (Or.inl ⟨inside, rfl⟩ :
          _ ∨ 0 < p.y ∧ (⟨p.x - 1, p.y⟩ : Point) = ⟨p.x, p.y - 1⟩)
        have maskEq : (state.mask p).B = state.img.rgb ⟨p.x - 1, p.y⟩ := if_pos inside
        rw [maskEq] at foreground ⊢
        have left : img.Contains ⟨p.x - 1, p.y⟩ :=
          ⟨(Nat.sub_le _ _).trans_lt contains.1, contains.2⟩
        exact ⟨_, (scanned _ left near).mp foreground, near.1, rfl⟩
      · exact absurd ((if_neg inside).trans inv.sameBack) foreground
    · by_cases inside : 0 < p.y
      · have near := adjacent_before_iff.mpr (Or.inr ⟨inside, rfl⟩ :
          0 < p.x ∧ (⟨p.x, p.y - 1⟩ : Point) = ⟨p.x - 1, p.y⟩ ∨ _)
        have maskEq : (state.mask p).C = state.img.rgb ⟨p.x, p.y - 1⟩ := if_pos inside
        rw [maskEq] at foreground ⊢
        have upper : img.Contains ⟨p.x, p.y - 1⟩ :=
          ⟨contains.1, (Nat.sub_le _ _).trans_lt contains.2⟩
        exact ⟨_, (scanned _ upper near).mp foreground, near.1, rfl⟩
      · exact absurd ((if_neg inside).trans inv.sameBack) foreground

/-- What painting the pixel `p` in the colour `l` does to the image and the map, when `K` are the
colours of the objects that it touches: all of them get the colour `l`. -/
structure Painted (K : Color → Prop) (l : Color) (backColor : Color) (img : BufferedImage)
    (done : List Point) (p : Point) (state state' : Coloring) : Prop where
  sameBack : state'.colorer.backColor = state.colorer.backColor
  width : state'.img.width = state.img.width
  height : state'.img.height = state.img.height
  here : state'.img.rgb p = l
  repainted : ∀ a ∈ Scanned backColor img done, K (state.img.rgb a) → state'.img.rgb a = l
  kept : ∀ a ≠ p, ¬(a ∈ Scanned backColor img done ∧ K (state.img.rgb a)) →
    state'.img.rgb a = state.img.rgb a
  mapHere : ∃ list, state'.colorer.map l = some list ∧
    ∀ q, q ∈ list ↔ q = p ∨ q ∈ Scanned backColor img done ∧ K (state.img.rgb q)
  mapFreed : ∀ c ≠ l, K c → state'.colorer.map c = none
  mapKept : ∀ c ≠ l, ¬K c → state'.colorer.map c = state.colorer.map c
  used : ∀ c, c ∈ state'.colorer.usedColors ↔ c = l ∨ c ∈ state.colorer.usedColors ∧ ¬K c
  nodup : (state'.colorer.usedColors ++ state'.colorer.colors).Nodup
  backFree : backColor ∉ state'.colorer.usedColors ++ state'.colorer.colors

variable {K : Color → Prop} {l : Color} {state' : Coloring}

/-- The pixels of the new colour are the new pixel and the objects that it touches. -/
theorem Painted.eq_new_iff (painted : Painted K l backColor img done p state state')
    (free : ∀ a ∈ Scanned backColor img done, ¬K (state.img.rgb a) → state.img.rgb a ≠ l)
    (q : Point) :
    q ∈ Set.insert p (Scanned backColor img done) ∧ state'.img.rgb q = l ↔
      q = p ∨ q ∈ Scanned backColor img done ∧ K (state.img.rgb q) := by
  constructor
  · rintro ⟨rfl | scanned, same⟩
    · exact Or.inl rfl
    · by_cases here : q = p
      · exact Or.inl here
      · refine Or.inr ⟨scanned, ?_⟩
        by_contra apart
        rw [painted.kept q here fun both => apart both.2] at same
        exact free q scanned apart same
  · rintro (rfl | ⟨scanned, touched⟩)
    · exact ⟨Or.inl rfl, painted.here⟩
    · exact ⟨Or.inr scanned, painted.repainted q scanned touched⟩

/-- The pixels of any other colour stay the same, unless it was touched. -/
theorem Painted.eq_other_iff (painted : Painted K l backColor img done p state state')
    (new : p ∉ Scanned backColor img done) {c : Color} (other : c ≠ l) (q : Point) :
    q ∈ Set.insert p (Scanned backColor img done) ∧ state'.img.rgb q = c ↔
      ¬K c ∧ q ∈ Scanned backColor img done ∧ state.img.rgb q = c := by
  constructor
  · rintro ⟨rfl | scanned, rfl⟩
    · exact absurd painted.here other
    · have apart : ¬K (state.img.rgb q) := fun touched =>
        other (painted.repainted q scanned touched)
      have different : q ≠ p := by
        rintro rfl
        exact new scanned
      have same := painted.kept q different fun both => apart both.2
      rw [same]
      exact ⟨apart, scanned, rfl⟩
  · rintro ⟨apart, scanned, rfl⟩
    have different : q ≠ p := by
      rintro rfl
      exact new scanned
    exact ⟨Or.inr scanned, painted.kept q different fun both => apart both.2⟩

/-- The new pixel joins the objects that it touches. -/
theorem Painted.labels (painted : Painted K l backColor img done p state state')
    (inv : Invariant backColor img done state) (new : p ∉ Scanned backColor img done)
    (touched : ∀ c, (∃ n ∈ Scanned backColor img done, Adjacent p n ∧ state.img.rgb n = c) ↔ K c)
    (free : ∀ a ∈ Scanned backColor img done, ¬K (state.img.rgb a) → state.img.rgb a ≠ l) :
    Labels Adjacent (Set.insert p (Scanned backColor img done)) state'.img.rgb := by
  have touches : ∀ a, Touches Adjacent (Scanned backColor img done) state.img.rgb p a ↔
      K (state.img.rgb a) := fun a => touched (state.img.rgb a)
  refine inv.labels.insert Adjacent.symm (Adjacent.irrefl p) (fun a scanned touch => ?_)
    fun a scanned apart => ?_
  · rw [painted.here]
    exact painted.repainted a scanned ((touches a).mp touch)
  · rw [touches] at apart
    have different : a ≠ p := by
      rintro rfl
      exact new scanned
    refine ⟨painted.kept a different fun both => apart both.2, ?_⟩
    rw [painted.here]
    exact free a scanned apart

/-- The colours in use are still those of the pixels. -/
theorem Painted.used_iff (painted : Painted K l backColor img done p state state')
    (inv : Invariant backColor img done state) (new : p ∉ Scanned backColor img done)
    (c : Color) : c ∈ state'.colorer.usedColors ↔
      ∃ q ∈ Set.insert p (Scanned backColor img done), state'.img.rgb q = c := by
  rw [painted.used, inv.used]
  by_cases here : c = l
  · subst here
    exact iff_of_true (Or.inl rfl) ⟨p, Or.inl rfl, painted.here⟩
  · rw [or_iff_right here]
    constructor
    · rintro ⟨⟨q, scanned, same⟩, apart⟩
      exact ⟨q, (painted.eq_other_iff new here q).mpr ⟨apart, scanned, same⟩⟩
    · rintro ⟨q, both⟩
      rcases (painted.eq_other_iff new here q).mp both with ⟨apart, scanned, same⟩
      exact ⟨⟨q, scanned, same⟩, apart⟩

/-- The map has entries for the colours in use. -/
theorem Painted.mapped_iff (painted : Painted K l backColor img done p state state')
    (inv : Invariant backColor img done state) (c : Color) :
    (state'.colorer.map c).isSome ↔ c ∈ state'.colorer.usedColors := by
  rw [painted.used]
  by_cases here : c = l
  · subst here
    rcases painted.mapHere with ⟨list, mapEq, -⟩
    exact iff_of_true (by rw [mapEq]; rfl) (Or.inl rfl)
  · rw [or_iff_right here]
    by_cases touch : K c
    · rw [painted.mapFreed c here touch]
      exact iff_of_false (by simp) fun both => both.2 touch
    · rw [painted.mapKept c here touch, inv.mapped]
      exact ⟨fun member => ⟨member, touch⟩, fun both => both.1⟩

/-- The entry of a colour lists its pixels. -/
theorem Painted.listed_iff (painted : Painted K l backColor img done p state state')
    (inv : Invariant backColor img done state) (new : p ∉ Scanned backColor img done)
    (free : ∀ a ∈ Scanned backColor img done, ¬K (state.img.rgb a) → state.img.rgb a ≠ l)
    {c : Color} {list : List Point} (mapEq : state'.colorer.map c = some list) (q : Point) :
    q ∈ list ↔ q ∈ Set.insert p (Scanned backColor img done) ∧ state'.img.rgb q = c := by
  by_cases here : c = l
  · subst here
    rcases painted.mapHere with ⟨list', mapEq', listed⟩
    cases mapEq.symm.trans mapEq'
    rw [painted.eq_new_iff free, listed]
  · rw [painted.eq_other_iff new here]
    by_cases touch : K c
    · rw [painted.mapFreed c here touch] at mapEq
      cases mapEq
    · rw [painted.mapKept c here touch] at mapEq
      rw [inv.listed c list mapEq]
      exact ⟨fun both => ⟨touch, both⟩, fun both => both.2⟩

/-- Painting a foreground pixel keeps the invariant, whatever it touches. -/
theorem Invariant.paint (inv : Invariant backColor img done state) (new : p ∉ done)
    (foreground : img.rgb p ≠ backColor)
    (touched : ∀ c, (∃ n ∈ Scanned backColor img done, Adjacent p n ∧ state.img.rgb n = c) ↔ K c)
    (free : ∀ a ∈ Scanned backColor img done, ¬K (state.img.rgb a) → state.img.rgb a ≠ l)
    (painted : Painted K l backColor img done p state state') :
    Invariant backColor img (done ++ [p]) state' := by
  have newScanned : p ∉ Scanned backColor img done := fun scanned => new scanned.1
  have scannedEq : Scanned backColor img (done ++ [p]) =
      Set.insert p (Scanned backColor img done) := scanned_append_foreground foreground
  constructor
  · exact painted.sameBack.trans inv.sameBack
  · exact painted.width.trans inv.width
  · exact painted.height.trans inv.height
  · intro q apart
    rw [scannedEq] at apart
    have different : q ≠ p := fun same => apart (Or.inl same)
    have earlier : q ∉ Scanned backColor img done := fun scanned => apart (Or.inr scanned)
    exact (painted.kept q different fun both => earlier both.1).trans (inv.untouched q earlier)
  · rw [scannedEq]
    exact painted.labels inv newScanned touched free
  · rw [scannedEq]
    exact painted.used_iff inv newScanned
  · exact painted.nodup
  · exact painted.backFree
  · exact painted.mapped_iff inv
  · rw [scannedEq]
    exact fun c list mapEq => painted.listed_iff inv newScanned free mapEq

theorem Invariant.extend (inv : Invariant backColor img done state) (new : p ∉ done)
    (foreground : img.rgb p ≠ backColor)
    (touched : ∀ c, (∃ n ∈ Scanned backColor img done, Adjacent p n ∧ state.img.rgb n = c) ↔
      c = l) : Invariant backColor img (done ++ [p]) (state.setColor p l) := by
  rcases (touched l).mpr rfl with ⟨n, nScanned, -, nColor⟩
  have inUse : l ∈ state.colorer.usedColors := nColor ▸ inv.rgb_mem nScanned
  rcases Option.isSome_iff_exists.mp ((inv.mapped l).mpr inUse) with ⟨list, mapEq⟩
  refine inv.paint new foreground touched (fun a _ apart => apart) ⟨rfl, rfl, rfl, ?_, ?_, ?_,
    ⟨list ++ [p], ?_, fun q => ?_⟩, ?_, ?_, fun c => ?_, inv.nodup, inv.backFree⟩
  · exact Function.update_self ..
  · intro a _ same
    by_cases here : a = p
    · subst here
      exact Function.update_self ..
    · exact (Function.update_of_ne here ..).trans same
  · exact fun a different _ => Function.update_of_ne different ..
  · simp [Coloring.setColor, mapEq]
  · rw [List.mem_append, List.mem_singleton, inv.listed l list mapEq, or_comm]
  · exact fun c different same => absurd same different
  · exact fun c different _ => Function.update_of_ne different ..
  · change c ∈ state.colorer.usedColors ↔ _
    by_cases here : c = l
    · subst here
      exact iff_of_true inUse (Or.inl rfl)
    · simp [here]

/-- A pixel that touches no object starts one, in a colour that is not in use. -/
theorem Invariant.start (inv : Invariant backColor img done state) (new : p ∉ done)
    (foreground : img.rgb p ≠ backColor)
    (alone : ∀ c, ¬∃ n ∈ Scanned backColor img done, Adjacent p n ∧ state.img.rgb n = c)
    {rest : List Color} {draws : ℕ}
    (nodup : (state.colorer.usedColors ++ l :: rest).Nodup)
    (backFree : backColor ∉ state.colorer.usedColors ++ l :: rest) :
    Invariant backColor img (done ++ [p])
      (Coloring.setColor { state with colorer := { state.colorer with
        colors := rest, usedColors := state.colorer.usedColors ++ [l], draws := draws } } p l) := by
  have unused : l ∉ state.colorer.usedColors := fun member =>
    (List.nodup_append.mp nodup).2.2 l member l List.mem_cons_self rfl
  have unmapped : state.colorer.map l = none := by
    rw [← Option.not_isSome_iff_eq_none, inv.mapped]
    exact unused
  have shifted : (state.colorer.usedColors ++ [l]) ++ rest =
      state.colorer.usedColors ++ l :: rest := by simp
  refine inv.paint new foreground (fun c => iff_of_false (alone c) id)
    (fun a scanned _ => ne_of_mem_of_not_mem (inv.rgb_mem scanned) unused)
    ⟨rfl, rfl, rfl, ?_, ?_, ?_, ⟨[p], ?_, fun q => ?_⟩, ?_, ?_, fun c => ?_, ?_, ?_⟩
  · exact Function.update_self ..
  · exact fun _ _ touch => touch.elim
  · exact fun a different _ => Function.update_of_ne different ..
  · simp [Coloring.setColor, unmapped]
  · simp
  · exact fun _ _ touch => touch.elim
  · exact fun c different _ => Function.update_of_ne different ..
  · change c ∈ state.colorer.usedColors ++ [l] ↔ _
    simp [or_comm]
  · exact shifted ▸ nodup
  · exact shifted ▸ backFree

theorem foldl_setColor {list : List Point} {dst : Color}
    (mapEq : state.colorer.map dst = some list) (src : List Point) :
    src.foldl (fun state point => state.setColor point dst) state =
      { colorer := { state.colorer with
          map := Function.update state.colorer.map dst (some (list ++ src)) }
        img := { state.img with
          rgb := fun q => if q ∈ src then dst else state.img.rgb q } } := by
  induction src generalizing state list with
  | nil =>
      have sameMap : Function.update state.colorer.map dst (some (list ++ [])) =
          state.colorer.map := by
        rw [List.append_nil, ← mapEq, Function.update_eq_self]
      rw [List.foldl_nil, sameMap]
      simp only [List.not_mem_nil, if_false]
  | cons first rest ih =>
      have painted : (state.setColor first dst).colorer.map dst = some (list ++ [first]) := by
        simp [Coloring.setColor, mapEq]
      rw [List.foldl_cons, ih painted]
      have sameMap : Function.update (state.setColor first dst).colorer.map dst
          (some (list ++ [first] ++ rest)) =
          Function.update state.colorer.map dst (some (list ++ first :: rest)) := by
        simp [Coloring.setColor]
      have sameRgb : (fun q => if q ∈ rest then dst else (state.setColor first dst).img.rgb q) =
          fun q => if q ∈ first :: rest then dst else state.img.rgb q := by
        funext q
        by_cases here : q = first
        · subst here
          simp [Coloring.setColor, BufferedImage.setRGB]
        · simp [Coloring.setColor, BufferedImage.setRGB, here]
      rw [sameMap, sameRgb]
      rfl

theorem repaint_eq {srcColor dstColor : Color} {dst : List Point} (different : srcColor ≠ dstColor)
    (dstEq : state.colorer.map dstColor = some dst) (src : List Point) :
    state.repaint p src srcColor dstColor =
      { colorer := { state.colorer with
          colors := state.colorer.colors ++ [srcColor]
          usedColors := state.colorer.usedColors.erase srcColor
          map := Function.update (Function.update state.colorer.map srcColor none) dstColor
            (some (dst ++ src ++ [p])) }
        img := { state.img with
          rgb := Function.update (fun q => if q ∈ src then dstColor else state.img.rgb q) p
            dstColor } } := by
  have stillEq : Function.update state.colorer.map srcColor none dstColor = some dst := by
    rw [Function.update_of_ne different.symm, dstEq]
  rw [Coloring.repaint]
  dsimp only
  rw [foldl_setColor stillEq]
  simp [Coloring.setColor, BufferedImage.setRGB]

theorem Invariant.merge (inv : Invariant backColor img done state) (new : p ∉ done)
    (foreground : img.rgb p ≠ backColor) {srcColor dstColor : Color} {src : List Point}
    (touched : ∀ c, (∃ n ∈ Scanned backColor img done, Adjacent p n ∧ state.img.rgb n = c) ↔
      c = srcColor ∨ c = dstColor) (different : srcColor ≠ dstColor)
    (srcEq : state.colorer.map srcColor = some src) :
    Invariant backColor img (done ++ [p]) (state.repaint p src srcColor dstColor) := by
  have inUse : ∀ c, c = srcColor ∨ c = dstColor → c ∈ state.colorer.usedColors := by
    intro c cTouched
    rcases (touched c).mpr cTouched with ⟨n, nScanned, -, rfl⟩
    exact inv.rgb_mem nScanned
  have srcUsed : srcColor ∈ state.colorer.usedColors := inUse srcColor (Or.inl rfl)
  rcases Option.isSome_iff_exists.mp ((inv.mapped dstColor).mpr (inUse dstColor (Or.inr rfl)))
    with ⟨dst, dstEq⟩
  have usedNodup : state.colorer.usedColors.Nodup := (List.nodup_append.mp inv.nodup).1
  have moved : (state.colorer.usedColors.erase srcColor ++
      (state.colorer.colors ++ [srcColor])).Perm
      (state.colorer.usedColors ++ state.colorer.colors) := by
    rw [← List.append_assoc]
    refine List.perm_append_comm.trans ?_
    exact (List.perm_cons_erase srcUsed).symm.append_right state.colorer.colors
  have srcListed := inv.listed srcColor src srcEq
  have dstListed := inv.listed dstColor dst dstEq
  rw [repaint_eq different dstEq]
  refine inv.paint new foreground touched (fun a _ apart same => apart (Or.inr same))
    ⟨rfl, rfl, rfl, ?_, fun a scanned touch => ?_, fun a elsewhere apart => ?_,
      ⟨dst ++ src ++ [p], ?_, fun q => ?_⟩, fun c other touch => ?_, fun c other apart => ?_,
      fun c => ?_, moved.nodup_iff.mpr inv.nodup, fun member => inv.backFree ?_⟩
  · simp
  · by_cases here : a = p
    · subst here
      simp
    · rcases touch with same | same
      · have inSrc : a ∈ src := (srcListed a).mpr ⟨scanned, same⟩
        simp [here, inSrc]
      · simp [here, same]
  · have notSrc : a ∉ src := fun inSrc =>
      apart ⟨((srcListed a).mp inSrc).1, Or.inl ((srcListed a).mp inSrc).2⟩
    simp [elsewhere, notSrc]
  · simp
  · rw [List.mem_append, List.mem_append, List.mem_singleton, srcListed, dstListed]
    tauto
  · have freed : c = srcColor := touch.resolve_right other
    subst freed
    simp [other]
  · have notSrc : c ≠ srcColor := fun same => apart (Or.inl same)
    simp [other, notSrc]
  · rw [usedNodup.mem_erase_iff]
    constructor
    · rintro ⟨notSrc, member⟩
      by_cases here : c = dstColor
      · exact Or.inl here
      · exact Or.inr ⟨member, fun touch => touch.elim notSrc here⟩
    · rintro (rfl | ⟨member, apart⟩)
      · exact ⟨different.symm, inUse c (Or.inr rfl)⟩
      · exact ⟨fun same => apart (Or.inl same), member⟩
  · exact moved.mem_iff.mp member

theorem Invariant.background (inv : Invariant backColor img done state)
    (background : img.rgb p = backColor) : Invariant backColor img (done ++ [p]) state := by
  have scannedEq : Scanned backColor img (done ++ [p]) = Scanned backColor img done :=
    scanned_append_background background
  refine ⟨inv.sameBack, inv.width, inv.height, ?_, ?_, ?_, inv.nodup, inv.backFree, inv.mapped, ?_⟩
  · rw [scannedEq]
    exact inv.untouched
  · rw [scannedEq]
    exact inv.labels
  · rw [scannedEq]
    exact inv.used
  · rw [scannedEq]
    exact inv.listed

/-- The pixel starts an object while no colour is free. -/
def Coloring.Draws (state : Coloring) (point : Point) : Prop :=
  (state.mask point).A ≠ state.colorer.backColor ∧
    (state.mask point).B = state.colorer.backColor ∧
    (state.mask point).C = state.colorer.backColor ∧ state.colorer.colors = []

/-- The next random colour is neither the background nor in use. -/
def Coloring.NextApart (random : ℕ → Color) (state : Coloring) : Prop :=
  random state.colorer.draws ≠ state.colorer.backColor ∧
    random state.colorer.draws ∉ state.colorer.usedColors

theorem Invariant.startObject (inv : Invariant backColor img done state) (new : p ∉ done)
    (foreground : img.rgb p ≠ backColor) (random : ℕ → Color)
    (alone : ∀ c, ¬∃ n ∈ Scanned backColor img done, Adjacent p n ∧ state.img.rgb n = c)
    (apart : state.colorer.colors = [] → state.NextApart random) :
    ∃ state', state.startObject random p = some state' ∧
      Invariant backColor img (done ++ [p]) state' := by
  rw [Coloring.startObject]
  cases free : state.colorer.colors with
  | nil =>
      rcases apart free with ⟨notBack, notUsed⟩
      rw [inv.sameBack] at notBack
      have usedNodup := inv.nodup
      have backFree := inv.backFree
      rw [free, List.append_nil] at usedNodup backFree
      refine ⟨_, rfl, inv.start new foreground alone ?_ ?_⟩
      · refine List.nodup_append.mpr ⟨usedNodup, List.nodup_singleton _, fun c used d new => ?_⟩
        rw [List.mem_singleton.mp new]
        exact ne_of_mem_of_not_mem used notUsed
      · simpa [backFree] using notBack.symm
  | cons newColor rest =>
      have nodup := inv.nodup
      have backFree := inv.backFree
      rw [free] at nodup backFree
      simp only [List.isEmpty_cons, Bool.false_eq_true, if_false, free]
      exact ⟨_, rfl, inv.start new foreground alone nodup backFree⟩

theorem Invariant.mergeObjects (inv : Invariant backColor img done state) (new : p ∉ done)
    (foreground : img.rgb p ≠ backColor) {mask : Mask}
    (touched : ∀ c, (∃ n ∈ Scanned backColor img done, Adjacent p n ∧ state.img.rgb n = c) ↔
      c = mask.B ∨ c = mask.C) (different : mask.B ≠ mask.C) :
    ∃ state', state.mergeObjects p mask = some state' ∧
      Invariant backColor img (done ++ [p]) state' := by
  have mapped : ∀ c, c = mask.B ∨ c = mask.C → ∃ list, state.colorer.map c = some list := by
    intro c cTouched
    rcases (touched c).mpr cTouched with ⟨n, nScanned, -, rfl⟩
    exact Option.isSome_iff_exists.mp ((inv.mapped _).mpr (inv.rgb_mem nScanned))
  rcases mapped mask.B (Or.inl rfl) with ⟨listB, listBEq⟩
  rcases mapped mask.C (Or.inr rfl) with ⟨listC, listCEq⟩
  rw [Coloring.mergeObjects, listBEq, listCEq]
  by_cases shorter : listB.length < listC.length
  · simp only [if_pos shorter]
    exact ⟨_, rfl, inv.merge new foreground touched different listBEq⟩
  · simp only [if_neg shorter]
    exact ⟨_, rfl, inv.merge new foreground (fun c => (touched c).trans or_comm)
      different.symm listCEq⟩

theorem Invariant.colorPixel (inv : Invariant backColor img done state) (random : ℕ → Color)
    (split : img.points = done ++ p :: after)
    (apart : state.Draws p → state.NextApart random) :
    ∃ state', state.colorPixel random p = some state' ∧
      Invariant backColor img (done ++ [p]) state' := by
  have new : p ∉ done := by
    intro again
    have earlier := ((BufferedImage.mem_before split).mp again).2
    unfold Before at earlier
    omega
  have pixel : (state.mask p).A = img.rgb p :=
    inv.untouched p fun scanned => new scanned.1
  have touched := inv.touched_iff split
  rw [Coloring.colorPixel, inv.sameBack, pixel]
  by_cases background : img.rgb p = backColor
  · rw [if_pos background]
    exact ⟨state, rfl, inv.background background⟩
  rw [if_neg background]
  by_cases alone : (state.mask p).B = backColor ∧ (state.mask p).C = backColor
  · rw [if_pos alone]
    refine inv.startObject new background random (fun c touch => ?_) fun free => apart ?_
    · rcases (touched c).mp touch with ⟨different, rfl | rfl⟩
      · exact different alone.1
      · exact different alone.2
    · refine ⟨?_, ?_, ?_, free⟩
      · rw [inv.sameBack, pixel]
        exact background
      · exact alone.1.trans inv.sameBack.symm
      · exact alone.2.trans inv.sameBack.symm
  rw [if_neg alone]
  by_cases between : (state.mask p).B ≠ backColor ∧ (state.mask p).C ≠ backColor ∧
      (state.mask p).B ≠ (state.mask p).C
  · rw [if_pos between]
    rcases between with ⟨left, upper, different⟩
    have both : ∀ c, (∃ n ∈ Scanned backColor img done, Adjacent p n ∧ state.img.rgb n = c) ↔
        c = (state.mask p).B ∨ c = (state.mask p).C := by
      intro c
      rw [touched c, and_iff_right_iff_imp]
      rintro (rfl | rfl)
      · exact left
      · exact upper
    exact inv.mergeObjects new background both different
  rw [if_neg between]
  by_cases left : (state.mask p).B ≠ backColor
  · rw [if_pos left]
    refine ⟨_, rfl, inv.extend new background fun c => ?_⟩
    have others : c ≠ backColor → c = (state.mask p).C → c = (state.mask p).B := by
      rintro upper rfl
      by_contra different
      exact between ⟨left, upper, fun same => different same.symm⟩
    rw [touched c]
    constructor
    · rintro ⟨notBack, same | same⟩
      · exact same
      · exact others notBack same
    · rintro rfl
      exact ⟨left, Or.inl rfl⟩
  rw [if_neg left]
  by_cases upper : (state.mask p).C ≠ backColor
  · rw [if_pos upper]
    refine ⟨_, rfl, inv.extend new background fun c => ?_⟩
    rw [touched c]
    constructor
    · rintro ⟨notBack, rfl | same⟩
      · exact absurd notBack left
      · exact same
    · rintro rfl
      exact ⟨upper, Or.inr rfl⟩
  · exact absurd ⟨not_not.mp left, not_not.mp upper⟩ alone

end Step

end MrsOptimization.Navigation
