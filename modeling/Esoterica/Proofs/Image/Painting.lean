import Esoterica.Image

/-!
Painting on an image. A square takes its color where it lies on the image, and every other pixel stays.
-/

namespace Esoterica.Image

/-- One image comes from another by painting some places in one color. -/
structure Painted (Covers : Nat → Nat → Prop) (pixel : Pixel) (before after : Image) : Prop where
  width : after.width = before.width
  height : after.height = before.height
  covered : ∀ {column row : Nat}, column < before.width → row < before.height → Covers column row →
    after.get? column row = some pixel
  others : ∀ {column row : Nat}, ¬ Covers column row → after.get? column row = before.get? column row

variable {Covers Also : Nat → Nat → Prop} {pixel : Pixel} {before middle after : Image}

theorem Painted.trans (first : Painted Covers pixel before middle)
    (second : Painted Also pixel middle after) :
    Painted (fun column row => Covers column row ∨ Also column row) pixel before after where
  width := second.width.trans first.width
  height := second.height.trans first.height
  covered := by
    intro column row left above covers
    by_cases repainted : Also column row
    · exact second.covered (first.width ▸ left) (first.height ▸ above) repainted
    · rw [second.others repainted]
      exact first.covered left above (covers.resolve_right repainted)
  others := by
    intro column row untouched
    rw [not_or] at untouched
    rw [second.others untouched.2, first.others untouched.1]

theorem Painted.congr (painted : Painted Covers pixel before after)
    (same : ∀ column row, Covers column row ↔ Also column row) :
    Painted Also pixel before after where
  width := painted.width
  height := painted.height
  covered left above covers := painted.covered left above ((same _ _).2 covers)
  others untouched := painted.others fun covers => untouched ((same _ _).1 covers)

theorem Painted.nothing (image : Image) (pixel : Pixel) (never : ∀ column row, ¬ Covers column row) :
    Painted Covers pixel image image where
  width := rfl
  height := rfl
  covered _ _ covers := (never _ _ covers).elim
  others _ := rfl

/-- Each place of a rectangle has a number of its own, counted row after row. -/
theorem place_inj {width x y column row : Nat} (inside : x < width) (left : column < width)
    (equal : row * width + column = y * width + x) : column = x ∧ row = y := by
  have columns : column = x := by
    have remainders := congrArg (· % width) equal
    simp only [Nat.mul_add_mod_self_right] at remainders
    rwa [Nat.mod_eq_of_lt left, Nat.mod_eq_of_lt inside] at remainders
  subst columns
  exact ⟨rfl, Nat.eq_of_mul_eq_mul_right (Nat.zero_lt_of_lt left) (Nat.add_right_cancel equal)⟩

theorem place_lt {width height column row : Nat} (left : column < width) (above : row < height) :
    row * width + column < width * height :=
  calc row * width + column
      < row * width + width := Nat.add_lt_add_left left _
    _ = (row + 1) * width := (Nat.succ_mul _ _).symm
    _ ≤ height * width := Nat.mul_le_mul_right _ above
    _ = width * height := Nat.mul_comm _ _

theorem set_painted (image : Image) (x y : Nat) (pixel : Pixel) :
    Painted (fun column row => column = x ∧ row = y) pixel image (image.set x y pixel) := by
  unfold set
  split
  · rename_i inside
    refine ⟨rfl, rfl, ?_, ?_⟩
    · rintro column row left above ⟨rfl, rfl⟩
      rw [get?, if_pos ⟨left, above⟩]
      exact Array.getElem?_setIfInBounds_self_of_lt (image.sizeEq ▸ place_lt left above)
    · intro column row other
      unfold get?
      split
      · rename_i place
        apply Array.getElem?_setIfInBounds_ne
        intro equal
        exact other (place_inj inside.1 place.1 equal.symm)
      · rfl
  · rename_i outside
    refine ⟨rfl, rfl, ?_, fun _ => rfl⟩
    rintro column row left above ⟨rfl, rfl⟩
    exact (outside ⟨left, above⟩).elim

theorem fillRow_painted (image : Image) (x y count : Nat) (pixel : Pixel) :
    Painted (fun column row => (x ≤ column ∧ column < x + count) ∧ row = y) pixel image
      (fillRow x y pixel count image) := by
  induction count generalizing image with
  | zero =>
      apply Painted.nothing
      intro column row
      omega
  | succ count inductionHypothesis =>
      apply ((set_painted image (x + count) y pixel).trans (inductionHypothesis _)).congr
      intro column row
      omega

theorem fillRows_painted (image : Image) (x y width count : Nat) (pixel : Pixel) :
    Painted (fun column row => (x ≤ column ∧ column < x + width) ∧ y ≤ row ∧ row < y + count) pixel
      image (fillRows x y width pixel count image) := by
  induction count generalizing image with
  | zero =>
      apply Painted.nothing
      intro column row
      omega
  | succ count inductionHypothesis =>
      apply ((fillRow_painted image x (y + count) width pixel).trans (inductionHypothesis _)).congr
      intro column row
      omega

/-- A square is painted as far as it lies on the image. -/
theorem fillSquare_painted (image : Image) (x y size : Nat) (pixel : Pixel) :
    Painted (fun column row => (x ≤ column ∧ column < x + size) ∧ y ≤ row ∧ row < y + size) pixel
      image (image.fillSquare x y size pixel) :=
  fillRows_painted image x y size size pixel

section Fold

variable {Item : Type} {act : Image → Item → Image} {Shows : Item → Nat → Nat → Prop}
  {pixelOf : Item → Pixel} {items : List Item} {image : Image} {column row : Nat}
  (painted : ∀ image item, Painted (Shows item) (pixelOf item) image (act image item))

include painted

theorem sizes_foldl (items : List Item) (image : Image) :
    (items.foldl act image).width = image.width ∧ (items.foldl act image).height = image.height := by
  induction items generalizing image with
  | nil => exact ⟨rfl, rfl⟩
  | cons item items inductionHypothesis =>
      obtain ⟨width, height⟩ := inductionHypothesis (act image item)
      exact ⟨width.trans (painted image item).width, height.trans (painted image item).height⟩

theorem get?_foldl_of_uncovered (uncovered : ∀ item ∈ items, ¬ Shows item column row) :
    (items.foldl act image).get? column row = image.get? column row := by
  induction items generalizing image with
  | nil => rfl
  | cons item items inductionHypothesis =>
      rw [List.forall_mem_cons] at uncovered
      rw [List.foldl_cons, inductionHypothesis uncovered.2, (painted image item).others uncovered.1]

/-- Where all that covers a place has one color there, neither order nor repetition matters. -/
theorem get?_foldl_of_covered (left : column < image.width) (above : row < image.height)
    (same : ∀ item ∈ items, Shows item column row → pixelOf item = pixel)
    (covered : ∃ item ∈ items, Shows item column row) :
    (items.foldl act image).get? column row = some pixel := by
  induction items generalizing image with
  | nil => simp at covered
  | cons item items inductionHypothesis =>
      have step := painted image item
      rw [List.forall_mem_cons] at same
      rw [List.foldl_cons]
      by_cases later : ∃ item ∈ items, Shows item column row
      · exact inductionHypothesis (step.width ▸ left) (step.height ▸ above) same.2 later
      · have here : Shows item column row := by simpa [later] using covered
        rw [get?_foldl_of_uncovered painted (by simpa using later), step.covered left above here,
          same.1 here]

end Fold

end Esoterica.Image
