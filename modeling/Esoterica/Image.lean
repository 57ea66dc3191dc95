/-!
Images: rectangles of pixels in rows.
-/

namespace Esoterica

structure Pixel where
  red : UInt8
  green : UInt8
  blue : UInt8
deriving DecidableEq, Repr

namespace Pixel

def white : Pixel := ⟨255, 255, 255⟩

def black : Pixel := ⟨0, 0, 0⟩

/-- The pixel with every channel reversed. -/
def inverse (pixel : Pixel) : Pixel :=
  ⟨255 - pixel.red, 255 - pixel.green, 255 - pixel.blue⟩

end Pixel

/-- An image lists its pixels row after row. -/
structure Image where
  width : Nat
  height : Nat
  pixels : Array Pixel
  sizeEq : pixels.size = width * height
deriving DecidableEq, Repr

namespace Image

/-- An image of one color. -/
def filled (width height : Nat) (pixel : Pixel) : Image :=
  ⟨width, height, Array.replicate (width * height) pixel, by simp⟩

/-- The pixel in a column and a row, where there is one. -/
def get? (image : Image) (x y : Nat) : Option Pixel :=
  if x < image.width ∧ y < image.height then image.pixels[y * image.width + x]? else none

/-- Paints one pixel; outside the image nothing happens. -/
def set (image : Image) (x y : Nat) (pixel : Pixel) : Image :=
  if x < image.width ∧ y < image.height then
    { image with
      pixels := image.pixels.setIfInBounds (y * image.width + x) pixel
      sizeEq := by simp [image.sizeEq] }
  else image

/-- Paints a row of pixels to the right of a position. -/
def fillRow (x y : Nat) (pixel : Pixel) : Nat → Image → Image
  | 0, image => image
  | count + 1, image => fillRow x y pixel count (image.set (x + count) y pixel)

/-- Paints rows of pixels beneath one another. -/
def fillRows (x y width : Nat) (pixel : Pixel) : Nat → Image → Image
  | 0, image => image
  | count + 1, image =>
    fillRows x y width pixel count (fillRow x (y + count) pixel width image)

/-- Paints a square with this corner at its top left. -/
def fillSquare (image : Image) (x y size : Nat) (pixel : Pixel) : Image :=
  fillRows x y size pixel size image

end Image

end Esoterica
