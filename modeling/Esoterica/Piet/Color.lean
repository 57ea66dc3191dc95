import Esoterica.Image
import Esoterica.Json

/-!
The colors of Piet: six hues in three lightnesses, white and black. Hues and lightnesses go round in
circles.
-/

namespace Esoterica.Piet

/-- Red, yellow, green, cyan, blue and magenta, in this order. -/
abbrev Hue := Fin 6

/-- Light, normal and dark, in this order. -/
abbrev Lightness := Fin 3

def Hue.name (hue : Hue) : String :=
  #v["red", "yellow", "green", "cyan", "blue", "magenta"][hue]

def Hue.title (hue : Hue) : String :=
  #v["Red", "Yellow", "Green", "Cyan", "Blue", "Magenta"][hue]

def Lightness.name (lightness : Lightness) : String :=
  #v["light", "normal", "dark"][lightness]

def Lightness.title (lightness : Lightness) : String :=
  #v["Light", "Normal", "Dark"][lightness]

inductive Color where
  | chromatic (hue : Hue) (lightness : Lightness)
  | white
  | black
deriving DecidableEq, Repr

namespace Color

def all : List Color :=
  [white, black] ++
    (List.finRange 3).flatMap fun lightness =>
      (List.finRange 6).map fun hue => chromatic hue lightness

/-- The values of a channel that is part of a hue and of one that is not. -/
def channelRange (lightness : Lightness) : UInt8 × UInt8 :=
  #v[(0xFF, 0xC0), (0xFF, 0x00), (0xC0, 0x00)][lightness]

/-- Which of the three channels are part of a hue. -/
def channelsOf (hue : Hue) : Bool × Bool × Bool :=
  #v[(true, false, false), (true, true, false), (false, true, false), (false, true, true),
    (false, false, true), (true, false, true)][hue]

def toPixel : Color → Pixel
  | white => .white
  | black => .black
  | chromatic hue lightness =>
    let (high, low) := channelRange lightness
    let (red, green, blue) := channelsOf hue
    let channel (inHue : Bool) : UInt8 := if inHue then high else low
    ⟨channel red, channel green, channel blue⟩

/-- The color of a pixel; a pixel of no other color counts as white. -/
def ofPixel (pixel : Pixel) : Color :=
  (all.find? fun color => color.toPixel == pixel).getD white

/-- How far hue and lightness change from one chromatic color to another. -/
def stepsTo? : Color → Color → Option (Hue × Lightness)
  | chromatic hue lightness, chromatic nextHue nextLightness =>
    some (nextHue - hue, nextLightness - lightness)
  | _, _ => none

/-- The color in a text. -/
def text : Color → String
  | white => "white"
  | black => "black"
  | chromatic hue lightness => s!"{Lightness.title lightness} {Hue.title hue}"

def toJson : Color → Json
  | white => .text "white"
  | black => .text "black"
  | chromatic hue lightness =>
    .record [("chromatic", .array [.text (Hue.name hue), .text (Lightness.name lightness)])]

end Color

end Esoterica.Piet
