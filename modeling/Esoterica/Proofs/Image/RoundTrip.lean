import Esoterica.Proofs.Image.Formats
import Esoterica.Proofs.Image.Painting

/-!
An image is decoded from its own file. The file of an image is one of its binary files, with the channels
as samples.
-/

namespace Esoterica.Image

namespace Ppm

/-- The sizes of an image and the number of its samples are words. -/
structure Fits (image : Image) : Prop where
  width : image.width < UInt64.size
  height : image.height < UInt64.size
  count : 3 * image.width * image.height < UInt64.size

theorem codes_append (first second : String) : codes (first ++ second) = codes first ++ codes second := by
  rw [codes, String.toList_append, List.map_append]
  rfl

theorem length_flatMap_channels (pixels : List Pixel) :
    (pixels.flatMap channels).length = 3 * pixels.length := by
  induction pixels with
  | nil => rfl
  | cons pixel pixels inductionHypothesis =>
      simp only [List.flatMap_cons, List.length_append, inductionHypothesis, List.length_cons,
        channels, List.length_nil]
      omega

section File

variable {image other : Image}

theorem ext_of_pixels (width : image.width = other.width) (height : image.height = other.height)
    (pixels : image.pixels = other.pixels) : image = other := by
  cases image
  cases other
  simp_all

/-- What the file of an image holds: its channels, with all bytes in their range. -/
def Fits.content (fits : Fits image) : Content where
  width := image.width
  height := image.height
  greatest := 255
  samples := (image.pixels.toList.flatMap channels).map (·.toNat)
  widthFits := fits.width
  heightFits := fits.height
  countFits := fits.count
  positive := by decide
  greatestFits := by decide
  complete := by
    rw [List.length_map, length_flatMap_channels, Array.length_toList, image.sizeEq, Nat.mul_assoc]
  bounded := by
    intro sample member
    obtain ⟨byte, _, rfl⟩ := List.mem_map.1 member
    exact Nat.le_of_lt_succ byte.toNat_lt

theorem Fits.raster_content (fits : Fits image) :
    fits.content.raster = image.pixels.toList.flatMap channels := by
  have unchanged : UInt8.ofNat ∘ UInt8.toNat = id := by
    funext byte
    exact UInt8.ofNat_toNat
  have narrow : ¬ 255 < fits.content.greatest := Nat.lt_irrefl 255
  rw [Content.raster, if_neg narrow]
  show ((image.pixels.toList.flatMap channels).map UInt8.toNat).map UInt8.ofNat = _
  rw [List.map_map, unchanged, List.map_id]

/-- The file of an image is a binary file of its channels. -/
theorem Fits.inBinary_encode (fits : Fits image) : fits.content.InBinary (encode image) := by
  have gap (byte : UInt8) (blank : isSpace byte) : Gap [byte] :=
    ⟨.blank blank .nil, List.cons_ne_nil _ _⟩
  refine ⟨_, linefeed, .cons (gap linefeed rfl) (numeral_toString image.width)
    (.cons (gap 32 rfl) (numeral_toString image.height)
      (.cons (gap linefeed rfl) (numeral_toString 255) .nil)), rfl, ?_⟩
  rw [fits.raster_content, encode]
  simp only [codes_append, List.append_assoc]
  rfl

/-- The image in the file is the image that was written. -/
theorem Fits.image_content (fits : Fits image) : fits.content.image = image := by
  have samples := fits.content.channels_image
  have unscaled : (fun sample => sample * 255 / fits.content.greatest) = id := by
    funext sample
    exact Nat.mul_div_cancel sample (by decide)
  rw [unscaled, List.map_id] at samples
  have pixels : fits.content.image.pixels = image.pixels := by
    apply Array.toList_inj.1
    apply eq_of_flatMap_channels
    exact (List.map_inj_right fun _ _ => UInt8.toNat_inj.1).1 samples
  exact ext_of_pixels rfl rfl pixels

/-- Decoding undoes encoding. -/
theorem Fits.decode_encode (fits : Fits image) : decode (encode image) = .ok image := by
  have rasterFits : fits.content.raster.length < UInt64.size := by
    rw [fits.raster_content, length_flatMap_channels, Array.length_toList, image.sizeEq,
      ← Nat.mul_assoc]
    exact fits.count
  have decoded := Content.decode_of_inBinary fits.inBinary_encode rasterFits []
  rwa [List.append_nil, fits.image_content] at decoded

end File

theorem lt_of_readNumber {bytes rest : List UInt8} {value : Nat}
    (read : readNumber bytes = .ok (value, rest)) : value < UInt64.size := by
  obtain ⟨⟨token, after⟩, _, found⟩ := bind_eq_ok_iff.1 read
  cases parsed : Word.parseNat? UInt64.size token.toList with
  | none => simp [parsed] at found
  | some number =>
      simp only [parsed, pure, Except.pure, Except.ok.injEq, Prod.mk.injEq] at found
      obtain ⟨rfl, rfl⟩ := found
      simpa using (Option.filter_eq_some_iff.1 parsed).2

/-- The sizes of a decoded image are words. -/
theorem sizes_of_decode {bytes : List UInt8} {image : Image} (decoded : decode bytes = .ok image) :
    image.width < UInt64.size ∧ image.height < UInt64.size := by
  obtain ⟨⟨format, afterFormat⟩, _, decoded⟩ := bind_eq_ok_iff.1 decoded
  obtain ⟨binary, _, decoded⟩ := bind_eq_ok_iff.1 decoded
  obtain ⟨⟨width, afterWidth⟩, readWidth, decoded⟩ := bind_eq_ok_iff.1 decoded
  obtain ⟨⟨height, afterHeight⟩, readHeight, decoded⟩ := bind_eq_ok_iff.1 decoded
  obtain ⟨⟨greatest, afterGreatest⟩, _, decoded⟩ := bind_eq_ok_iff.1 decoded
  simp only at decoded
  split at decoded
  · cases decoded
  split at decoded
  · cases decoded
  split at decoded
  · cases decoded
  cases decoded
  exact ⟨lt_of_readNumber readWidth, lt_of_readNumber readHeight⟩

/-- The images that can be made: one color on sizes that are words, painted over, and the images of
files. -/
inductive Made : Image → Prop where
  | filled {width height : Nat} (pixel : Pixel) (wide : width < UInt64.size)
      (high : height < UInt64.size) : Made (filled width height pixel)
  | set {image : Image} (made : Made image) (x y : Nat) (pixel : Pixel) : Made (image.set x y pixel)
  | fillSquare {image : Image} (made : Made image) (x y size : Nat) (pixel : Pixel) :
      Made (image.fillSquare x y size pixel)
  | decoded {bytes : List UInt8} {image : Image} (decoded : decode bytes = .ok image) : Made image

theorem Made.sizes {image : Image} (made : Made image) :
    image.width < UInt64.size ∧ image.height < UInt64.size := by
  induction made with
  | filled _ wide high => exact ⟨wide, high⟩
  | @set image _ x y pixel inductionHypothesis =>
      have painted := set_painted image x y pixel
      rwa [painted.width, painted.height]
  | @fillSquare image _ x y size pixel inductionHypothesis =>
      have painted := fillSquare_painted image x y size pixel
      rwa [painted.width, painted.height]
  | decoded decoded => exact sizes_of_decode decoded

/-- However an image has been made, it has a pixel for each place and is decoded from its own file, as long
as its samples can be counted. -/
theorem made_images_round_trip (image : Image) (made : Made image)
    (countFits : 3 * image.width * image.height < UInt64.size) :
    image.pixels.size = image.width * image.height ∧ decode (encode image) = .ok image := by
  obtain ⟨wide, high⟩ := made.sizes
  have fits : Fits image := ⟨wide, high, countFits⟩
  exact ⟨image.sizeEq, fits.decode_encode⟩

/-- The raster of this image looks like blanks, comments and digits. -/
theorem made_image_of_blanks_round_trips :
    let image := ((filled 2 2 ⟨35, 10, 32⟩).fillSquare 1 0 2 ⟨48, 49, 9⟩).set 0 1 ⟨13, 12, 57⟩
    Made image ∧ 3 * image.width * image.height < UInt64.size ∧
      image.pixels = #[⟨35, 10, 32⟩, ⟨48, 49, 9⟩, ⟨13, 12, 57⟩, ⟨48, 49, 9⟩] ∧
      decode (encode image) = .ok image := by
  intro image
  have made : Made image :=
    .set (.fillSquare (.filled ⟨35, 10, 32⟩ (by decide) (by decide)) 1 0 2 ⟨48, 49, 9⟩) 0 1 ⟨13, 12, 57⟩
  have countFits : 3 * image.width * image.height < UInt64.size := by decide
  exact ⟨made, countFits, by decide, (made_images_round_trip image made countFits).2⟩

end Ppm

end Esoterica.Image
