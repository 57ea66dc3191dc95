import Esoterica.Error
import Esoterica.Image
import Esoterica.Text.Utf8
import Esoterica.Word

/-!
Portable pixmaps. A file starts with its format, its width, its height and the greatest sample; the
samples follow as decimal numbers (P3) or as bytes (P6). Blanks and comments may stand between
numbers, and a comment runs from `#` to the end of its line.
-/

namespace Esoterica.Image.Ppm

/-- The ASCII codes of a text. -/
def codes (text : String) : List UInt8 :=
  text.toList.map fun c => .ofNat c.toNat

/-- The code of `#`. -/
def commentMark : UInt8 := 35

/-- The code of a linefeed. -/
def linefeed : UInt8 := 10

/-- Blank, tab, linefeed, form feed and carriage return. -/
def isSpace (byte : UInt8) : Bool :=
  byte == 32 || byte == 9 || byte == linefeed || byte == 12 || byte == 13

/-- Skips blanks and comments. -/
def skipSpace (inComment : Bool) : List UInt8 → List UInt8
  | [] => []
  | byte :: rest =>
    if inComment then skipSpace (byte != linefeed) rest
    else if byte == commentMark then skipSpace true rest
    else if isSpace byte then skipSpace false rest
    else byte :: rest

def isTokenByte (byte : UInt8) : Bool :=
  !isSpace byte && byte != commentMark

def failure (message : String) : Error :=
  (Error.parseFailed message).during "image::from_ppm"

/-- The next token, and the bytes after it. -/
def readToken (bytes : List UInt8) : Except Error (String × List UInt8) :=
  let start := skipSpace false bytes
  let token := start.takeWhile isTokenByte
  if token.isEmpty then .error (failure "image header ended early")
  else .ok (Text.Utf8.decodeLossy token, start.dropWhile isTokenByte)

/-- The next token as a number. -/
def readNumber (bytes : List UInt8) : Except Error (Nat × List UInt8) := do
  let (token, rest) ← readToken bytes
  match Word.parseNat? UInt64.size token.toList with
  | some value => return (value, rest)
  | none => .error (failure s!"expected a number in image, found '{token}'")

/-- The next numbers. -/
def readNumbers : Nat → List UInt8 → Except Error (List Nat)
  | 0, _ => .ok []
  | count + 1, bytes => do
    let (value, rest) ← readNumber bytes
    let values ← readNumbers count rest
    return value :: values

/-- Numbers of two bytes, the high byte first. -/
def pairs : List UInt8 → List Nat
  | high :: low :: rest => (high.toNat * 256 + low.toNat) :: pairs rest
  | _ => []

/-- A sample stretched from its range to that of a byte. -/
def scale (greatest sample : Nat) : UInt8 :=
  .ofNat (min sample greatest * 255 / greatest)

/-- Three samples make a pixel. -/
def triples (greatest : Nat) : List Nat → List Pixel
  | red :: green :: blue :: rest =>
    ⟨scale greatest red, scale greatest green, scale greatest blue⟩ :: triples greatest rest
  | _ => []

def truncated (needed found : Nat) : Error :=
  failure s!"image data truncated: expected {needed} bytes, found {found}"

/-- The samples of a binary file: one byte separates them from the header, and they take two bytes
each when the greatest does not fit in one. -/
def binarySamples (count greatest : Nat) (bytes : List UInt8) : Except Error (List Nat) :=
  let raster := bytes.drop 1
  let wide := greatest > 255
  let needed := if wide then count * 2 else count
  if UInt64.size ≤ needed then .error (failure "image dimensions overflow")
  else if raster.length < needed then .error (truncated needed raster.length)
  else if wide then .ok (pairs (raster.take needed))
  else .ok ((raster.take needed).map (·.toNat))

/-- The samples of a text file, each of which takes at least one byte. -/
def textSamples (count : Nat) (bytes : List UInt8) : Except Error (List Nat) :=
  if bytes.length < count then .error (truncated count bytes.length)
  else readNumbers count bytes

/-- The samples of a file. -/
def readSamples (binary : Bool) (count greatest : Nat) (bytes : List UInt8) :
    Except Error (List Nat) :=
  if binary then binarySamples count greatest bytes else textSamples count bytes

theorem length_pairs (bytes : List UInt8) : (pairs bytes).length = bytes.length / 2 := by
  fun_induction pairs bytes with
  | case1 high low rest inductionHypothesis =>
      simp only [List.length_cons, inductionHypothesis]
      omega
  | case2 bytes short =>
      rcases bytes with _ | ⟨high, _ | ⟨low, rest⟩⟩
      · rfl
      · simp
      · exact (short high low rest rfl).elim

theorem length_triples (greatest : Nat) (samples : List Nat) :
    (triples greatest samples).length = samples.length / 3 := by
  fun_induction triples greatest samples with
  | case1 red green blue rest inductionHypothesis =>
      simp only [List.length_cons, inductionHypothesis]
      omega
  | case2 samples short =>
      rcases samples with _ | ⟨red, _ | ⟨green, _ | ⟨blue, rest⟩⟩⟩
      · rfl
      · simp
      · simp
      · exact (short red green blue rest rfl).elim

/-- A raster that is long enough holds all samples. -/
theorem length_binarySamples {count greatest : Nat} {bytes : List UInt8} {samples : List Nat}
    (read : binarySamples count greatest bytes = .ok samples) : samples.length = count := by
  have taken {needed : Nat} (enough : ¬ (bytes.drop 1).length < needed) :
      ((bytes.drop 1).take needed).length = needed :=
    List.length_take_of_le (Nat.not_lt.1 enough)
  by_cases wide : greatest > 255
  · simp only [binarySamples, wide, if_true] at read
    split at read
    · cases read
    split at read
    · cases read
    · rename_i enough
      cases read
      rw [length_pairs, taken enough, Nat.mul_div_cancel count Nat.two_pos]
  · simp only [binarySamples, wide, if_false] at read
    split at read
    · cases read
    split at read
    · cases read
    · rename_i enough
      cases read
      rw [List.length_map, taken enough]

/-- As many numbers are read as are asked for. -/
theorem length_readNumbers {count : Nat} {bytes : List UInt8} {values : List Nat}
    (read : readNumbers count bytes = .ok values) : values.length = count := by
  induction count generalizing bytes values with
  | zero =>
      cases read
      rfl
  | succ count inductionHypothesis =>
      simp only [readNumbers, bind, Except.bind] at read
      split at read
      · cases read
      split at read
      · cases read
      · rename_i others readOthers
        cases read
        rw [List.length_cons, inductionHypothesis readOthers]

theorem length_readSamples {binary : Bool} {count greatest : Nat} {bytes : List UInt8}
    {samples : List Nat} (read : readSamples binary count greatest bytes = .ok samples) :
    samples.length = count := by
  unfold readSamples textSamples at read
  split at read
  · exact length_binarySamples read
  split at read
  · cases read
  · exact length_readNumbers read

/-- Three samples for each pixel make all pixels. -/
theorem size_triples {greatest count : Nat} {samples : List Nat}
    (complete : samples.length = count * 3) : (triples greatest samples).toArray.size = count := by
  rw [List.size_toArray, length_triples, complete, Nat.mul_div_cancel count (Nat.zero_lt_succ 2)]

/-- Whether a file of this format holds its samples as bytes. -/
def isBinary (format : String) : Except Error Bool :=
  if format = "P6" then .ok true
  else if format = "P3" then .ok false
  else .error (failure s!"unsupported image format '{format}'")

/-- The image in a file. -/
def decode (bytes : List UInt8) : Except Error Image := do
  let (format, bytes) ← readToken bytes
  let binary ← isBinary format
  let (width, bytes) ← readNumber bytes
  let (height, bytes) ← readNumber bytes
  let (greatest, bytes) ← readNumber bytes
  if greatest = 0 ∨ 65535 < greatest then
    .error (failure s!"invalid maxval {greatest}")
  else if UInt64.size ≤ width * height * 3 then
    .error (failure "image dimensions overflow")
  else
    match read : readSamples binary (width * height * 3) greatest bytes with
    | .error error => .error error
    | .ok samples =>
      .ok ⟨width, height, (triples greatest samples).toArray, size_triples (length_readSamples read)⟩

/-- The channels of a pixel in the order of a file. -/
def channels (pixel : Pixel) : List UInt8 :=
  [pixel.red, pixel.green, pixel.blue]

/-- The binary file of an image. -/
def encode (image : Image) : List UInt8 :=
  codes s!"P6\n{image.width} {image.height}\n255\n" ++ image.pixels.toList.flatMap channels

end Esoterica.Image.Ppm
