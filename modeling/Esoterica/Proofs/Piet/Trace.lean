import Esoterica.Piet.Trace
import Esoterica.Proofs.Piet.Canvas
import Esoterica.Proofs.Piet.Fill

/-!
The picture of a path, pixel by pixel. A codel is a square of eight times eight pixels, and the path shows
in the middle of it. No mark covers the corner of a codel, so the program is sampled from the picture
whatever the path. All this is so as long as the sizes of the picture do not wrap around.
-/

namespace Esoterica.Piet

/-- The codel whose square a pixel belongs to. -/
def codelAt (column row : Nat) : Codel :=
  ⟨(column / 8 : Nat), (row / 8 : Nat)⟩

/-- Along one side of its codel, a pixel lies in the middle half. -/
def InMiddle (offset : Nat) : Prop :=
  2 ≤ offset % 8 ∧ offset % 8 < 6

/-- A pixel lies in the middle of a codel on the path. -/
def Marked (path : List Codel) (column row : Nat) : Prop :=
  (InMiddle column ∧ InMiddle row) ∧ codelAt column row ∈ path

instance (offset : Nat) : Decidable (InMiddle offset) :=
  inferInstanceAs (Decidable (_ ∧ _))

instance (path : List Codel) (column row : Nat) : Decidable (Marked path column row) :=
  inferInstanceAs (Decidable (_ ∧ _))

/-- All the places of a program, row after row. -/
def allPlaces (codels : Codels) : List (Nat × Nat) :=
  (List.range codels.height).flatMap fun y => (List.range codels.width).map fun x => (x, y)

/-- No number of pixels within a side that fits wraps around. -/
theorem scaled_eq {count side : Nat} (within : count ≤ side) (fits : side * traceScale < UInt64.size) :
    scaled count = count * 8 := by
  unfold traceScale at fits
  exact Nat.mod_eq_of_lt (by unfold traceScale; omega)

section Enlarged

variable {codels : Codels} {column row : Nat} (fits : PictureFits codels)

theorem mem_allPlaces {x y : Nat} :
    (x, y) ∈ allPlaces codels ↔ x < codels.width ∧ y < codels.height := by
  simp only [allPlaces, List.mem_flatMap, List.mem_map, List.mem_range, Prod.mk.injEq]
  constructor
  · rintro ⟨_, above, _, left, rfl, rfl⟩
    exact ⟨left, above⟩
  · rintro ⟨left, above⟩
    exact ⟨y, above, x, left, rfl, rfl⟩

include fits

theorem enlarge_eq_paint :
    enlarge codels = paint 8 codels (Image.filled (codels.width * 8) (codels.height * 8) .white)
      (allPlaces codels) := by
  have folded : enlarge codels = (allPlaces codels).foldl
      (fun image place => paintCodel codels image place.1 place.2)
      (Image.filled (scaled codels.width) (scaled codels.height) .white) := by
    simp only [enlarge, allPlaces, List.foldl_flatMap, List.foldl_map]
  rw [folded, scaled_eq (Nat.le_refl _) fits.1, scaled_eq (Nat.le_refl _) fits.2]
  apply List.foldl_ext
  rintro image ⟨x, y⟩ member
  obtain ⟨left, above⟩ := mem_allPlaces.1 member
  simp only [paintCodel, scaled_eq left.le fits.1, scaled_eq above.le fits.2]
  rfl

theorem sizes_enlarge :
    (enlarge codels).width = 8 * codels.width ∧ (enlarge codels).height = 8 * codels.height := by
  rw [enlarge_eq_paint fits, Nat.mul_comm 8, Nat.mul_comm 8]
  exact sizes_paint (by decide) codels _ _

/-- Where there is a pixel there is a codel, and it has its color. -/
theorem get?_enlarge (left : column < 8 * codels.width) (above : row < 8 * codels.height) :
    ∃ color, codels.get? (codelAt column row) = some color ∧
      (enlarge codels).get? column row = some color.toPixel := by
  have inColumn : column / 8 < codels.width := by omega
  have inRow : row / 8 < codels.height := by omega
  have inside : codels.Inside (codelAt column row) := by
    simp only [Codels.Inside, codelAt]
    omega
  obtain ⟨color, found⟩ := Codels.exists_get?_of_inside inside
  have same : colorAt codels (column / 8, row / 8) = color := by
    show (codels.get? (codelAt column row)).getD .white = color
    rw [found, Option.getD_some]
  refine ⟨color, found, ?_⟩
  rw [Nat.mul_comm] at left above
  rw [enlarge_eq_paint fits, get?_paint (by decide) left above,
    if_pos (mem_allPlaces.2 ⟨inColumn, inRow⟩), same]

end Enlarged

section Marks

variable {codels : Codels} {image : Image} {path : List Codel} {column row : Nat}
  (fits : PictureFits codels)

include fits

/-- A mark covers the middle of its codel, if that is on the program. -/
theorem markCodel_painted (image : Image) (codel : Codel) :
    Image.Painted
      (fun column row => Marked [codel] column row ∧ (codels.get? codel).isSome)
      ((codels.get? codel).getD .white).toPixel.inverse image (markCodel codels image codel) := by
  unfold markCodel
  cases found : codels.get? codel with
  | none => exact .nothing image _ (by simp)
  | some color =>
      obtain ⟨right, left, below, above⟩ := Codels.inside_of_get? found
      have columns : scaled codel.x.toNat = codel.x.toNat * 8 := scaled_eq (by omega) fits.1
      have rows : scaled codel.y.toNat = codel.y.toNat * 8 := scaled_eq (by omega) fits.2
      apply (Image.fillSquare_painted image _ _ _ _).congr
      intro column row
      rw [columns, rows]
      obtain ⟨x, y⟩ := codel
      simp only [Marked, InMiddle, codelAt, List.mem_singleton, Codel.mk.injEq, traceScale, traceInset,
        Option.isSome_some, and_true] at right below ⊢
      omega

/-- Marks on the same codel have the same color, so it does not matter how often the path comes by. -/
theorem get?_marks (left : column < image.width) (above : row < image.height) {color : Color}
    (found : codels.get? (codelAt column row) = some color) :
    (path.foldl (markCodel codels) image).get? column row =
      if Marked path column row then some color.toPixel.inverse else image.get? column row := by
  have painted := markCodel_painted fits
  split
  · rename_i marked
    have covered : Marked [codelAt column row] column row := ⟨marked.1, List.mem_singleton_self _⟩
    apply Image.get?_foldl_of_covered painted left above _ ⟨_, marked.2, covered, by simp [found]⟩
    intro codel _ covers
    rw [← List.mem_singleton.1 covers.1.2, found, Option.getD_some]
  · rename_i unmarked
    apply Image.get?_foldl_of_uncovered painted
    intro codel member covers
    have here : codelAt column row = codel := List.mem_singleton.1 covers.1.2
    exact unmarked ⟨covers.1.1, here ▸ member⟩

end Marks

/-- A picture of a path is exact if its sizes do not wrap around. It is eight times as wide and as high as
the program, each pixel has the color of its codel or, in the middle of a codel on the path, the reverse of
it, and the program is sampled from it again. -/
theorem trace_shows_path (codels : Codels) (fits : PictureFits codels) (path : List Codel) :
    let picture := renderTrace codels path
    picture.width = 8 * codels.width ∧ picture.height = 8 * codels.height ∧
      (∀ column row, column < picture.width → row < picture.height →
        ∃ color, codels.get? (codelAt column row) = some color ∧
          picture.get? column row =
            some (if Marked path column row then color.toPixel.inverse else color.toPixel)) ∧
      Codels.ofImage 8 picture = codels := by
  intro picture
  obtain ⟨wide, high⟩ := sizes_enlarge fits
  obtain ⟨width, height⟩ := Image.sizes_foldl (markCodel_painted fits) path (enlarge codels)
  have pixels (column row : Nat) (left : column < 8 * codels.width) (above : row < 8 * codels.height) :
      ∃ color, codels.get? (codelAt column row) = some color ∧
        picture.get? column row =
          some (if Marked path column row then color.toPixel.inverse else color.toPixel) := by
    obtain ⟨color, found, enlarged⟩ := get?_enlarge fits left above
    have marked : picture.get? column row = _ := get?_marks fits (wide ▸ left) (high ▸ above) found
    refine ⟨color, found, ?_⟩
    rw [marked, enlarged]
    split <;> rfl
  replace wide : picture.width = 8 * codels.width := width.trans wide
  replace high : picture.height = 8 * codels.height := height.trans high
  refine ⟨wide, high, fun column row left above => pixels column row (wide ▸ left) (high ▸ above), ?_⟩
  -- A side that fits is a multiple of eight, so that there is room for one more codel.
  obtain ⟨widthFits, heightFits⟩ := fits
  have size : UInt64.size = 18446744073709551616 := rfl
  unfold traceScale at widthFits heightFits
  apply ofImage_of_corners (by decide) wide high (by omega) (by omega)
  intro x y inColumn inRow
  obtain ⟨color, found, shown⟩ := pixels (x * 8) (y * 8) (by omega) (by omega)
  have corner : ¬ Marked path (x * 8) (y * 8) := by
    simp [Marked, InMiddle]
  simp only [codelAt, Nat.mul_div_cancel _ (by decide : 0 < 8)] at found
  rw [shown, if_neg corner, colorAt, found, Option.getD_some]

/-- A path that comes by the first of two codels twice and leaves the program in between. -/
theorem trace_shows_path_twice :
    let codels : Codels := ⟨2, 1, #[.chromatic 0 1, .black], by decide⟩
    let path : List Codel := [⟨0, 0⟩, ⟨2, -1⟩, ⟨0, 0⟩]
    let picture := renderTrace codels path
    PictureFits codels ∧ picture.width = 16 ∧ picture.height = 8 ∧ Marked path 3 4 ∧
      picture.get? 3 4 = some ⟨0, 255, 255⟩ ∧ ¬ Marked path 11 4 ∧
      picture.get? 11 4 = some .black ∧ Codels.ofImage 8 picture = codels := by
  intro codels path picture
  have fits : PictureFits codels := by decide
  obtain ⟨wide, high, pixels, sampled⟩ := trace_shows_path codels fits path
  have visited : Marked path 3 4 := by decide
  have unvisited : ¬ Marked path 11 4 := by decide
  obtain ⟨first, foundRed, shownRed⟩ := pixels 3 4 (by rw [wide]; decide) (by rw [high]; decide)
  obtain ⟨second, foundBlack, shownBlack⟩ := pixels 11 4 (by rw [wide]; decide) (by rw [high]; decide)
  obtain rfl : Color.chromatic 0 1 = first := Option.some.inj foundRed
  obtain rfl : Color.black = second := Option.some.inj foundBlack
  rw [if_pos visited] at shownRed
  rw [if_neg unvisited] at shownBlack
  exact ⟨fits, wide, high, visited, shownRed, unvisited, shownBlack, sampled⟩

/-- Of a program that is `2 ^ 61` codels wide and has no rows, the picture has no width. -/
theorem not_every_trace_is_eight_times_as_wide :
    ¬ ∀ (codels : Codels) (path : List Codel),
      let picture := renderTrace codels path
      picture.width = 8 * codels.width ∧ picture.height = 8 * codels.height ∧
        Codels.ofImage 8 picture = codels := by
  intro always
  have wide := (always ⟨2305843009213693952, 0, #[], rfl⟩ []).1
  have none : (renderTrace ⟨2305843009213693952, 0, #[], rfl⟩ []).width = 0 := by decide
  rw [none] at wide
  cases wide

end Esoterica.Piet
