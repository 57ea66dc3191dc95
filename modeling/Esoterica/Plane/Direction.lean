/-!
The four directions of a plane whose second axis points down. They are counted clockwise from the
right.
-/

namespace Esoterica

inductive Direction where
  | right
  | down
  | left
  | up
deriving DecidableEq, Repr

namespace Direction

def all : List Direction :=
  [right, down, left, up]

def name : Direction → String
  | right => "right"
  | down => "down"
  | left => "left"
  | up => "up"

/-- One step to the side and one step down. -/
def delta : Direction → Int × Int
  | right => (1, 0)
  | down => (0, 1)
  | left => (-1, 0)
  | up => (0, -1)

def ofDelta? (dx dy : Int) : Option Direction :=
  all.find? (·.delta == (dx, dy))

/-- A quarter turn. -/
def clockwise : Direction → Direction
  | right => down
  | down => left
  | left => up
  | up => right

/-- Some quarter turns clockwise. -/
def turned (direction : Direction) : Nat → Direction
  | 0 => direction
  | turns + 1 => (direction.turned turns).clockwise

/-- Quarter turns, clockwise for a positive number and the other way for a negative one. -/
def rotated (direction : Direction) (turns : Int) : Direction :=
  direction.turned (turns % 4).toNat

def counterClockwise (direction : Direction) : Direction :=
  direction.turned 3

def reversed (direction : Direction) : Direction :=
  direction.turned 2

end Direction

end Esoterica
