import Esoterica.Program
import Esoterica.Proofs.Image.RoundTrip

/-!
Programs as images. A program that is painted in squares of pixels, written to a file and read again is
the same program.
-/

namespace Esoterica.Piet

/-- Every color is told by its pixel. -/
theorem Color.ofPixel_toPixel (color : Color) : ofPixel color.toPixel = color := by
  have chromatic : ∀ hue lightness,
    ofPixel (toPixel (chromatic hue lightness)) = chromatic hue lightness := by decide
  cases color with
  | chromatic hue lightness => exact chromatic hue lightness
  | white => rfl
  | black => rfl

theorem Codels.get?_of_lt {codels : Codels} {x y : Nat} (column : x < codels.width)
    (row : y < codels.height) : codels.get? ⟨x, y⟩ = codels.colors[y * codels.width + x]? := by
  have inside : (0 : Int) ≤ x ∧ (x : Int) < codels.width ∧ (0 : Int) ≤ y ∧ (y : Int) < codels.height := by
    omega
  exact if_pos inside

/-- A program is what its colors are, column by column and row by row. -/
theorem Codels.ofFn_eq {codels : Codels} {color : Nat → Nat → Color}
    (colored : ∀ x y : Nat, x < codels.width → y < codels.height →
      codels.get? ⟨x, y⟩ = some (color x y)) : ofFn codels.width codels.height color = codels := by
  have colors : (ofFn codels.width codels.height color).colors = codels.colors := by
    apply Array.ext_getElem?
    intro index
    by_cases within : index < codels.width * codels.height
    · have positive : 0 < codels.width := Nat.pos_of_mul_pos_right (Nat.zero_lt_of_lt within)
      have column := Nat.mod_lt index positive
      have row := Nat.div_lt_of_lt_mul within
      have found := colored (index % codels.width) (index / codels.width) column row
      rw [get?_of_lt column row, Nat.div_add_mod'] at found
      rw [found]
      simp [ofFn, within]
    · have size := codels.sizeEq
      rw [Array.getElem?_eq_none (by simpa [ofFn] using within), Array.getElem?_eq_none (by omega)]
  obtain ⟨width, height, list, sizeEq⟩ := codels
  simp only [ofFn] at colors ⊢
  simp only [colors]

/-- The color of a place, and white where there is none. -/
def colorAt (codels : Codels) (place : Nat × Nat) : Color :=
  (codels.get? ⟨place.1, place.2⟩).getD .white

/-- Paints the codel of a place as a square of pixels. -/
def paintSquare (size : Nat) (codels : Codels) (image : Image) (place : Nat × Nat) : Image :=
  image.fillSquare (place.1 * size) (place.2 * size) size (colorAt codels place).toPixel

/-- Paints the codels of some places, one after the other. -/
def paint (size : Nat) (codels : Codels) (canvas : Image) (places : List (Nat × Nat)) : Image :=
  places.foldl (paintSquare size codels) canvas

section Painting

variable {size : Nat} {codels : Codels} {canvas : Image} {places : List (Nat × Nat)}

/-- The square of a codel holds the pixels whose place, divided by the size, is that of the codel. -/
theorem paintSquare_painted (positive : 0 < size) (codels : Codels) (canvas : Image)
    (place : Nat × Nat) :
    Image.Painted (fun column row => (column / size, row / size) = place) (colorAt codels place).toPixel
      canvas (paintSquare size codels canvas place) := by
  apply (Image.fillSquare_painted canvas _ _ size _).congr
  intro column row
  rw [Prod.ext_iff, Nat.div_eq_iff positive, Nat.div_eq_iff positive]
  omega

theorem sizes_paint (positive : 0 < size) (codels : Codels) (canvas : Image)
    (places : List (Nat × Nat)) :
    (paint size codels canvas places).width = canvas.width ∧
      (paint size codels canvas places).height = canvas.height :=
  Image.sizes_foldl (paintSquare_painted positive codels) places canvas

/-- In the end a pixel has the color of its codel, if that was painted. -/
theorem get?_paint (positive : 0 < size) {column row : Nat} (left : column < canvas.width)
    (above : row < canvas.height) :
    (paint size codels canvas places).get? column row =
      if (column / size, row / size) ∈ places then
        some (colorAt codels (column / size, row / size)).toPixel
      else canvas.get? column row := by
  have painted := paintSquare_painted positive codels
  split
  · rename_i covered
    apply Image.get?_foldl_of_covered painted left above _ ⟨_, covered, rfl⟩
    rintro place _ rfl
    rfl
  · rename_i uncovered
    apply Image.get?_foldl_of_uncovered painted
    rintro place member rfl
    exact uncovered member

/-- An image with the right corners is sampled to the program, as long as the sums for it do not wrap
around. -/
theorem ofImage_of_corners {image : Image} (positive : 0 < size)
    (wide : image.width = size * codels.width) (high : image.height = size * codels.height)
    (widthFits : image.width + size ≤ UInt64.size) (heightFits : image.height + size ≤ UInt64.size)
    (corners : ∀ x y, x < codels.width → y < codels.height →
      image.get? (x * size) (y * size) = some (colorAt codels (x, y)).toPixel) :
    Codels.ofImage size image = codels := by
  have rounded (side : Nat) (fits : size * side + size ≤ UInt64.size) :
      Codels.squaresAlong size (size * side) = side := by
    rw [Codels.squaresAlong, Nat.mod_eq_of_lt (by omega), Nat.div_eq_iff positive, Nat.mul_comm]
    omega
  have atLeastOne : max size 1 = size := Nat.max_eq_left positive
  rw [wide] at widthFits
  rw [high] at heightFits
  simp only [Codels.ofImage, atLeastOne, wide, high, rounded _ widthFits, rounded _ heightFits]
  apply Codels.ofFn_eq
  intro x y column row
  have within : y * codels.width + x < codels.colors.size :=
    codels.sizeEq ▸ Image.place_lt column row
  rw [corners x y column row, Option.getD_some, Color.ofPixel_toPixel, colorAt,
    Codels.get?_of_lt column row, Array.getElem?_eq_getElem within]
  rfl

/-- What is painted is sampled again, as long as every codel was painted, in whatever order. -/
theorem ofImage_paint (positive : 0 < size) (wide : canvas.width = size * codels.width)
    (high : canvas.height = size * codels.height) (fits : Codels.SamplesFit size canvas)
    (all : ∀ x y, x < codels.width → y < codels.height → (x, y) ∈ places) :
    Codels.ofImage size (paint size codels canvas places) = codels := by
  obtain ⟨width, height⟩ := sizes_paint positive codels canvas places
  obtain ⟨widthFits, heightFits⟩ := fits
  apply ofImage_of_corners positive (width.trans wide) (height.trans high) (by omega) (by omega)
  intro x y column row
  have left : x * size < canvas.width := by
    rw [wide, Nat.mul_comm]
    exact Nat.mul_lt_mul_of_pos_left column positive
  have above : y * size < canvas.height := by
    rw [high, Nat.mul_comm]
    exact Nat.mul_lt_mul_of_pos_left row positive
  rw [get?_paint positive left above, Nat.mul_div_cancel x positive, Nat.mul_div_cancel y positive,
    if_pos (all x y column row)]

end Painting

/-- The image of a program is the program. All codels are painted as squares on a canvas of the right size,
in whatever order, and the image is written to a file. What is decoded from the file is sampled to the
program, so that it runs as the program does. -/
theorem image_of_program_is_program (options : Options) (valid : options.Valid) (codels : Codels)
    (canvas : Image) (wide : canvas.width = options.codelSize * codels.width)
    (high : canvas.height = options.codelSize * codels.height) (places : List (Nat × Nat))
    (all : ∀ x y, x < codels.width → y < codels.height → (x, y) ∈ places)
    (fits : Image.Ppm.Fits canvas) (samplesFit : Codels.SamplesFit options.codelSize canvas) :
    let painted := paint options.codelSize codels canvas places
    ∃ image, Image.Ppm.decode (Image.Ppm.encode painted) = .ok image ∧
      Codels.ofImage options.codelSize image = codels ∧
      Program.ofImage options image = Program.ofCodels options codels ∧
      ∀ input, (Program.ofImage options image).map (fun program => program.run options input) =
        .ok ((machine options codels).conclude ((machine options codels).finish input) 0) := by
  intro painted
  have positive : 0 < options.codelSize := valid.1
  obtain ⟨width, height⟩ := sizes_paint positive codels canvas places
  have paintedFits : Image.Ppm.Fits painted := by
    constructor
    · rw [width]
      exact fits.width
    · rw [height]
      exact fits.height
    · rw [width, height]
      exact fits.count
  have sampled : Codels.ofImage options.codelSize painted = codels :=
    ofImage_paint positive wide high samplesFit all
  have validated : options.validate = .ok () := Options.validate_eq_ok_iff.2 valid
  have loaded : Program.ofCodels options codels = .ok (.piet codels) := by
    simp only [Program.ofCodels, load, validated]
    rfl
  have same : Program.ofImage options painted = Program.ofCodels options codels := by
    simp only [Program.ofImage, validated, sampled]
    rfl
  refine ⟨painted, paintedFits.decode_encode, sampled, same, ?_⟩
  intro input
  rw [same, loaded]
  rfl

/-- Red beside black, in squares of four pixels and from right to left. -/
theorem image_of_two_codels_is_program :
    let options : Options := { codelSize := 2 }
    let codels : Codels := ⟨2, 1, #[.chromatic 0 1, .black], by decide⟩
    let canvas := Image.filled 4 2 .white
    let places := [(1, 0), (0, 0)]
    let red : Pixel := ⟨255, 0, 0⟩
    let painted := paint 2 codels canvas places
    options.Valid ∧ (∀ x y, x < codels.width → y < codels.height → (x, y) ∈ places) ∧
      Image.Ppm.Fits canvas ∧ Codels.SamplesFit 2 canvas ∧
      painted.pixels = #[red, red, .black, .black, red, red, .black, .black] ∧
      ∃ image, Image.Ppm.decode (Image.Ppm.encode painted) = .ok image ∧
        Codels.ofImage 2 image = codels ∧ Program.ofImage options image = .ok (.piet codels) := by
  intro options codels canvas places red painted
  have valid : options.Valid := by decide
  have all : ∀ x y, x < codels.width → y < codels.height → (x, y) ∈ places := by
    intro x y column row
    obtain rfl : y = 0 := Nat.lt_one_iff.1 row
    match x, column with
    | 0, _ => decide
    | 1, _ => decide
  have fits : Image.Ppm.Fits canvas := ⟨by decide, by decide, by decide⟩
  have samplesFit : Codels.SamplesFit 2 canvas := by decide
  obtain ⟨image, decoded, sampled, same, _⟩ :=
    image_of_program_is_program options valid codels canvas rfl rfl places all fits samplesFit
  exact ⟨valid, all, fits, samplesFit, by decide, image, decoded, sampled, same⟩

end Esoterica.Piet
