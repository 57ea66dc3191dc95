import Esoterica.Piet.Color
import Esoterica.Plane.Direction

/-!
A Piet program: a rectangle of codels, each with one color.
-/

namespace Esoterica.Piet

/-- A place on the plane of the program. -/
structure Codel where
  x : Int
  y : Int
deriving DecidableEq, Repr

namespace Codel

/-- The codel one step away. -/
def next (codel : Codel) (direction : Direction) : Codel :=
  ⟨codel.x + direction.delta.1, codel.y + direction.delta.2⟩

/-- How far a codel lies in a direction. -/
def along (codel : Codel) : Direction → Int
  | .right => codel.x
  | .down => codel.y
  | .left => -codel.x
  | .up => -codel.y

def text (codel : Codel) : String :=
  s!"({codel.x}, {codel.y})"

end Codel

/-- The colors row after row. -/
structure Codels where
  width : Nat
  height : Nat
  colors : Array Color
  sizeEq : colors.size = width * height
deriving DecidableEq, Repr

namespace Codels

/-- The rectangle with the color that a function gives for each column and row. -/
def ofFn (width height : Nat) (color : Nat → Nat → Color) : Codels where
  width := width
  height := height
  colors := Array.ofFn fun index : Fin (width * height) =>
    color (index.val % width) (index.val / width)
  sizeEq := by simp

/-- Short rows are filled up with white. -/
def ofRows (rows : List (List Color)) : Codels :=
  let table := (rows.map List.toArray).toArray
  let width := rows.foldl (fun width row => max width row.length) 0
  ofFn width rows.length fun x y => ((table[y]?).bind fun row => row[x]?).getD .white

/-- How many squares lie along a side of an image; the last one may be cut off. The sum has 64 bits and
wraps around. -/
def squaresAlong (size length : Nat) : Nat :=
  (length + size - 1) % UInt64.size / size

/-- Each square of pixels becomes the codel of its corner at the top left. -/
def ofImage (size : Nat) (image : Image) : Codels :=
  let size := max size 1
  ofFn (squaresAlong size image.width) (squaresAlong size image.height) fun x y =>
    Color.ofPixel ((image.get? (x * size) (y * size)).getD .white)

/-- The sums for an image have no more than 64 bits. Where they have more, a host that checks its
arithmetic stops. -/
def SamplesFit (size : Nat) (image : Image) : Prop :=
  image.width + max size 1 < UInt64.size ∧ image.height + max size 1 < UInt64.size

instance (size : Nat) (image : Image) : Decidable (SamplesFit size image) :=
  inferInstanceAs (Decidable (_ ∧ _))

def isEmpty (codels : Codels) : Bool :=
  codels.colors.isEmpty

/-- The number of a codel in the order of the colors. -/
def index (codels : Codels) (codel : Codel) : Nat :=
  codel.y.toNat * codels.width + codel.x.toNat

/-- The color of a codel on the rectangle. -/
def get? (codels : Codels) (codel : Codel) : Option Color :=
  if 0 ≤ codel.x ∧ codel.x < codels.width ∧ 0 ≤ codel.y ∧ codel.y < codels.height then
    codels.colors[codels.index codel]?
  else none

/-- Whether the pointer may stand on a codel. -/
def isOpen (codels : Codels) (codel : Codel) : Bool :=
  (codels.get? codel).any fun color => color != .black

end Codels

end Esoterica.Piet
