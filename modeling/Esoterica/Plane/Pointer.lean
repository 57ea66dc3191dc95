import Esoterica.Word
import Esoterica.Plane.Direction

/-!
A pointer on the plane: where it stands and the step it takes. Both are pairs of words, and a step
may be any vector.
-/

namespace Esoterica

structure Pointer where
  x : Word := 0
  y : Word := 0
  dx : Word := 1
  dy : Word := 0
deriving DecidableEq, Repr

namespace Pointer

/-- Sets the step to one cell in a direction. -/
def head (pointer : Pointer) (direction : Direction) : Pointer :=
  { pointer with
    dx := Int64.ofInt direction.delta.1
    dy := Int64.ofInt direction.delta.2 }

/-- The direction of a step of one cell. -/
def direction? (pointer : Pointer) : Option Direction :=
  Direction.ofDelta? pointer.dx.toInt pointer.dy.toInt

/-- The position after one step, unless a coordinate leaves the range of words. -/
def ahead? (pointer : Pointer) : Option (Word × Word) :=
  match Word.add? pointer.x pointer.dx, Word.add? pointer.y pointer.dy with
  | some x, some y => some (x, y)
  | _, _ => none

/-- Takes one step, where there is one. -/
def advance? (pointer : Pointer) : Option Pointer :=
  pointer.ahead?.map fun (x, y) => { pointer with x, y }

/-- A quarter turn of the step to the right. -/
def turnRight (pointer : Pointer) : Pointer :=
  { pointer with dx := -pointer.dy, dy := pointer.dx }

/-- A quarter turn of the step to the left. -/
def turnLeft (pointer : Pointer) : Pointer :=
  { pointer with dx := pointer.dy, dy := -pointer.dx }

/-- Turns the step around. -/
def reflect (pointer : Pointer) : Pointer :=
  { pointer with dx := -pointer.dx, dy := -pointer.dy }

/-- The pointer in a log or a report. -/
def text (pointer : Pointer) : String :=
  let x := pointer.x.text
  let y := pointer.y.text
  let dx := pointer.dx.text
  let dy := pointer.dy.text
  s!"({x}, {y}) -> ({dx}, {dy})"

/-- Whether a position lies on a grid of rows with these widths. -/
def within (widths : List Nat) (x y : Word) : Bool :=
  0 ≤ x && 0 ≤ y && (widths[y.toInt.toNat]?).any (x.toInt.toNat < ·)

end Pointer

end Esoterica
