import Esoterica.Proofs.Image.Layout

/-!
The two formats of pixmaps. A file with decimal samples and a file with the same samples as bytes are
decoded to the same image.
-/

namespace Esoterica.Image.Ppm

/-- What a pixmap holds: its sizes, which are words, the greatest sample, and three samples for each
pixel. -/
structure Content where
  width : Nat
  height : Nat
  greatest : Nat
  samples : List Nat
  widthFits : width < UInt64.size
  heightFits : height < UInt64.size
  countFits : 3 * width * height < UInt64.size
  positive : 1 ≤ greatest
  greatestFits : greatest ≤ 65535
  complete : samples.length = 3 * width * height
  bounded : ∀ sample ∈ samples, sample ≤ greatest

/-- A number as two bytes, the high byte first. -/
def bigEndian (sample : Nat) : List UInt8 :=
  [.ofNat (sample / 256), .ofNat (sample % 256)]

namespace Content

/-- The numbers in front of the samples. -/
def header (content : Content) : List Nat :=
  [content.width, content.height, content.greatest]

/-- The samples as bytes, two for each of them if the greatest does not fit in one. -/
def raster (content : Content) : List UInt8 :=
  if 255 < content.greatest then content.samples.flatMap bigEndian else content.samples.map UInt8.ofNat

/-- The text files with this content: after the format all numbers follow in decimal. Behind the last one
a blank or a comment may stand, and then anything. -/
def InText (content : Content) (file : List UInt8) : Prop :=
  ∃ numbers trailing, Numbers (content.header ++ content.samples) numbers ∧ Stops trailing ∧
    file = codes "P3" ++ numbers ++ trailing

/-- The binary files with this content: after the format the sizes and the greatest sample follow in
decimal, then one blank and the raster. -/
def InBinary (content : Content) (file : List UInt8) : Prop :=
  ∃ numbers blank, Numbers content.header numbers ∧ isSpace blank ∧
    file = codes "P6" ++ numbers ++ blank :: content.raster

end Content

section Pixels

variable {greatest sample count : Nat} {samples : List Nat}

/-- A sample in its range is scaled without loss of the range of a byte. -/
theorem toNat_scale (bounded : sample ≤ greatest) :
    (scale greatest sample).toNat = sample * 255 / greatest := by
  have small : sample * 255 / greatest ≤ 255 := by
    apply Nat.div_le_of_le_mul
    exact Nat.mul_le_mul_right 255 bounded
  rw [scale, Nat.min_eq_left bounded, UInt8.toNat_ofNat']
  exact Nat.mod_eq_of_lt (by omega)

/-- Three samples in a row make a pixel of three channels. -/
theorem flatMap_channels_triples (complete : samples.length = 3 * count) :
    (triples greatest samples).flatMap channels = samples.map (scale greatest) := by
  induction count generalizing samples with
  | zero =>
      rw [Nat.mul_zero, List.length_eq_zero_iff] at complete
      rw [complete]
      rfl
  | succ count inductionHypothesis =>
      match samples, complete with
      | red :: green :: blue :: rest, complete =>
          have shorter : rest.length = 3 * count := by
            simp only [List.length_cons] at complete
            omega
          simp only [triples, List.flatMap_cons, inductionHypothesis shorter, channels, List.map_cons,
            List.cons_append, List.nil_append]

/-- An image is made of its channels. -/
theorem eq_of_flatMap_channels {pixels others : List Pixel}
    (equal : pixels.flatMap channels = others.flatMap channels) : pixels = others := by
  induction pixels generalizing others with
  | nil =>
      cases others with
      | nil => rfl
      | cons other others => cases equal
  | cons pixel pixels inductionHypothesis =>
      cases others with
      | nil => cases equal
      | cons other others =>
          simp only [List.flatMap_cons, channels, List.cons_append, List.nil_append,
            List.cons.injEq] at equal
          obtain ⟨red, green, blue, rest⟩ := equal
          have same : pixel = other := by
            cases pixel
            cases other
            simp_all
          rw [same, inductionHypothesis rest]

end Pixels

section Samples

variable {samples : List Nat}

theorem pairs_bigEndian (small : ∀ sample ∈ samples, sample ≤ 65535) :
    pairs (samples.flatMap bigEndian) = samples := by
  induction samples with
  | nil => rfl
  | cons sample samples inductionHypothesis =>
      obtain ⟨first, others⟩ := List.forall_mem_cons.1 small
      simp only [List.flatMap_cons, bigEndian, List.cons_append, List.nil_append, pairs,
        UInt8.toNat_ofNat', List.cons.injEq]
      exact ⟨by omega, inductionHypothesis others⟩

theorem length_bigEndian (samples : List Nat) :
    (samples.flatMap bigEndian).length = samples.length * 2 := by
  induction samples with
  | nil => rfl
  | cons sample samples inductionHypothesis =>
      simp only [List.flatMap_cons, List.length_append, inductionHypothesis, List.length_cons,
        bigEndian, List.length_nil]
      omega

theorem map_toNat_ofNat (small : ∀ sample ∈ samples, sample ≤ 255) :
    (samples.map UInt8.ofNat).map (·.toNat) = samples := by
  induction samples with
  | nil => rfl
  | cons sample samples inductionHypothesis =>
      obtain ⟨first, others⟩ := List.forall_mem_cons.1 small
      simp only [List.map_cons, UInt8.toNat_ofNat', List.cons.injEq]
      exact ⟨by omega, inductionHypothesis others⟩

/-- Just the raster is read, whatever stands behind it. -/
theorem binarySamples_of_length {count greatest : Nat} {blank : UInt8} {raster trailing : List UInt8}
    (whole : raster.length = if 255 < greatest then count * 2 else count)
    (fits : raster.length < UInt64.size) :
    binarySamples count greatest (blank :: raster ++ trailing) =
      .ok (if 255 < greatest then pairs raster else raster.map (·.toNat)) := by
  have enough : ¬ (raster ++ trailing).length < raster.length := by
    rw [List.length_append]
    omega
  simp only [binarySamples, List.cons_append, List.drop_succ_cons, List.drop_zero, gt_iff_lt, ← whole,
    Nat.not_le.2 fits, if_false, enough, List.take_left]
  split <;> rfl

end Samples

theorem Numbers.split {first second : List Nat} {bytes : List UInt8}
    (numbers : Numbers (first ++ second) bytes) :
    ∃ front back, Numbers first front ∧ Numbers second back ∧ bytes = front ++ back := by
  induction first generalizing bytes with
  | nil => exact ⟨[], bytes, .nil, numbers, rfl⟩
  | cons value first inductionHypothesis =>
      cases numbers with
      | cons gapped numeral others =>
          obtain ⟨front, back, inFront, behind, rfl⟩ := inductionHypothesis others
          exact ⟨_, back, .cons gapped numeral inFront, behind, (List.append_assoc _ _ _).symm⟩

namespace Content

variable {content : Content} {numbers body trailing : List UInt8}

theorem count_eq (content : Content) :
    content.width * content.height * 3 = content.samples.length := by
  rw [content.complete, Nat.mul_assoc 3, Nat.mul_comm 3]

/-- The image that a file with this content shows. -/
def image (content : Content) : Image where
  width := content.width
  height := content.height
  pixels := (triples content.greatest content.samples).toArray
  sizeEq := size_triples content.count_eq.symm

/-- The channels of the image are the samples, scaled and rounded down. -/
theorem channels_image (content : Content) :
    (content.image.pixels.toList.flatMap channels).map (·.toNat) =
      content.samples.map fun sample => sample * 255 / content.greatest := by
  have complete := content.complete
  rw [Nat.mul_assoc] at complete
  show ((triples content.greatest content.samples).flatMap channels).map (·.toNat) = _
  rw [flatMap_channels_triples complete, List.map_map]
  apply List.map_congr_left
  intro sample member
  exact toNat_scale (content.bounded sample member)

theorem binarySamples_raster (content : Content) (fits : content.raster.length < UInt64.size)
    (blank : UInt8) (trailing : List UInt8) :
    binarySamples content.samples.length content.greatest (blank :: content.raster ++ trailing) =
      .ok content.samples := by
  have bounded := content.bounded
  have greatestFits := content.greatestFits
  unfold Content.raster at fits ⊢
  by_cases wide : 255 < content.greatest
  · rw [if_pos wide] at fits ⊢
    rw [binarySamples_of_length (by rw [if_pos wide, length_bigEndian]) fits, if_pos wide,
      pairs_bigEndian]
    intro sample member
    exact Nat.le_trans (bounded sample member) greatestFits
  · rw [if_neg wide] at fits ⊢
    rw [binarySamples_of_length (by rw [if_neg wide, List.length_map]) fits, if_neg wide,
      map_toNat_ofNat]
    intro sample member
    exact Nat.le_trans (bounded sample member) (Nat.not_lt.1 wide)

theorem textSamples_numbers (content : Content) (laidOut : Numbers content.samples numbers)
    (stops : Stops trailing) :
    textSamples content.samples.length (numbers ++ trailing) = .ok content.samples := by
  have fits : ∀ sample ∈ content.samples, sample < UInt64.size := by
    intro sample member
    have bounded := content.bounded sample member
    have greatestFits := content.greatestFits
    have size : UInt64.size = 18446744073709551616 := rfl
    omega
  have enough : content.samples.length ≤ (numbers ++ trailing).length := by
    rw [List.length_append]
    exact Nat.le_add_right_of_le laidOut.length_le
  rw [textSamples, if_neg (Nat.not_lt.2 enough)]
  exact laidOut.readNumbers fits stops

/-- A file is decoded as soon as its samples are found behind the header. -/
theorem decode_of_header {format : String} {binary : Bool} (known : isBinary format = .ok binary)
    (nonempty : format.toList ≠ []) (plain : ∀ c ∈ format.toList, IsPlain c)
    (laidOut : Numbers content.header numbers) (stops : Stops body)
    (read : readSamples binary content.samples.length content.greatest body = .ok content.samples) :
    decode (codes format ++ numbers ++ body) = .ok content.image := by
  have greatestFits := content.greatestFits
  have positive := content.positive
  have countFits := content.countFits
  have size : UInt64.size = 18446744073709551616 := rfl
  have readFormat := readToken_of_plain .nil nonempty plain (laidOut.stops stops)
  obtain ⟨afterWidth, laidOut, readWidth⟩ := laidOut.readNumber content.widthFits stops
  obtain ⟨afterHeight, laidOut, readHeight⟩ := laidOut.readNumber content.heightFits stops
  obtain ⟨afterGreatest, laidOut, readGreatest⟩ := laidOut.readNumber (by omega) stops
  rw [laidOut.eq_nil, List.nil_append] at readGreatest
  rw [List.nil_append, ← List.append_assoc] at readFormat
  have inRange : ¬ (content.greatest = 0 ∨ 65535 < content.greatest) := by omega
  have noOverflow : ¬ UInt64.size ≤ content.samples.length := by
    rw [content.complete]
    omega
  rw [← content.count_eq] at read noOverflow
  simp only [decode, readFormat, known, readWidth, readHeight, readGreatest, bind, Except.bind, inRange,
    noOverflow, if_false]
  split
  · rename_i failed
    cases read.symm.trans failed
  · rename_i samples found
    cases read.symm.trans found
    rfl

theorem decode_of_inText {file : List UInt8} (inText : content.InText file) :
    decode file = .ok content.image := by
  obtain ⟨numbers, trailing, laidOut, stops, rfl⟩ := inText
  obtain ⟨front, back, header, samples, rfl⟩ := laidOut.split
  rw [← List.append_assoc, List.append_assoc]
  exact decode_of_header rfl (by decide) (isPlain_of_all (by decide)) header (samples.stops stops)
    (content.textSamples_numbers samples stops)

theorem decode_of_inBinary {file : List UInt8} (inBinary : content.InBinary file)
    (fits : content.raster.length < UInt64.size) (trailing : List UInt8) :
    decode (file ++ trailing) = .ok content.image := by
  obtain ⟨numbers, blank, header, isBlank, rfl⟩ := inBinary
  rw [List.append_assoc]
  exact decode_of_header rfl (by decide) (isPlain_of_all (by decide)) header (stops_of_blank isBlank)
    (content.binarySamples_raster fits blank trailing)

end Content

/-- The same content is decoded to the same image from a text file and from a binary one, however the
numbers are laid out and whatever follows the samples. The channels of the image are the samples,
stretched to the range of a byte and rounded down. -/
theorem formats_agree (content : Content) :
    ∃ image : Image, image.width = content.width ∧ image.height = content.height ∧
      (image.pixels.toList.flatMap channels).map (·.toNat) =
        content.samples.map (fun sample => sample * 255 / content.greatest) ∧
      (∀ file, content.InText file → decode file = .ok image) ∧
      (content.raster.length < UInt64.size → ∀ file trailing, content.InBinary file →
        decode (file ++ trailing) = .ok image) := by
  refine ⟨content.image, rfl, rfl, content.channels_image, ?_, ?_⟩
  · intro file inText
    exact Content.decode_of_inText inText
  · intro fits file trailing inBinary
    exact Content.decode_of_inBinary inBinary fits trailing

/-- A pixel of wide samples, once with comments, a sign and a leading zero, and once in bytes of which one
is the code of a blank. -/
theorem formats_agree_on_wide_pixel :
    let content : Content := ⟨1, 1, 300, [300, 32, 150], by decide, by decide, by decide, by decide,
      by decide, by decide, by decide⟩
    let text := codes "P3#wide\n1 +1\t\n0300 300 32 150 #end"
    let binary := codes "P6 1 1 300\n" ++ [1, 44, 0, 32, 0, 150]
    content.InText text ∧ content.InBinary binary ∧ content.raster.length < UInt64.size ∧
      ∃ image : Image, (image.pixels.toList.flatMap channels).map (·.toNat) = [255, 27, 127] ∧
        decode text = .ok image ∧ decode (binary ++ [7]) = .ok image := by
  intro content text binary
  have blank : Gap (codes " ") := ⟨.blank rfl .nil, by decide⟩
  have twoBlanks : Gap (codes "\t\n") := ⟨.blank rfl (.blank rfl .nil), by decide⟩
  have comment : Gap (codes "#wide\n") := ⟨@Space.comment (codes "wide") [] (by decide) .nil, by decide⟩
  have signed : Numeral 1 "+1" := @Numeral.signed 1 "+1" ['1'] rfl
    ⟨by decide, List.all_eq_true.1 rfl, rfl⟩
  have padded : Numeral 300 "0300" := .plain ⟨by decide, List.all_eq_true.1 rfl, rfl⟩
  have inText : content.InText text :=
    ⟨codes "#wide\n1 +1\t\n0300 300 32 150", codes " #end", .cons comment (numeral_toString 1)
      (.cons blank signed (.cons twoBlanks padded (.cons blank (numeral_toString 300)
        (.cons blank (numeral_toString 32) (.cons blank (numeral_toString 150) .nil))))),
      stops_of_blank rfl, rfl⟩
  have inBinary : content.InBinary binary :=
    ⟨codes " 1 1 300", linefeed, .cons blank (numeral_toString 1) (.cons blank (numeral_toString 1)
      (.cons blank (numeral_toString 300) .nil)), rfl, rfl⟩
  have fits : content.raster.length < UInt64.size := by decide
  obtain ⟨image, _, _, samples, fromText, fromBinary⟩ := formats_agree content
  exact ⟨inText, inBinary, fits, image, samples.trans (by decide), fromText text inText,
    fromBinary fits binary [7] inBinary⟩

end Esoterica.Image.Ppm
