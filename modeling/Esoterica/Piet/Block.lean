import Esoterica.Piet.Codels

/-!
Blocks of one color, and the codel at which the pointer leaves a block.
-/

namespace Esoterica.Piet

/-- The side of the pointer's direction on which an exit is chosen. -/
inductive Chooser where
  | left
  | right
deriving DecidableEq, Repr

namespace Chooser

def name : Chooser → String
  | left => "left"
  | right => "right"

def toggled : Chooser → Chooser
  | left => right
  | right => left

/-- The direction on the plane to which the chooser points. -/
def absolute (chooser : Chooser) (direction : Direction) : Direction :=
  match chooser with
  | left => direction.counterClockwise
  | right => direction.clockwise

end Chooser

/-- Codels of one color that hang together. -/
structure Block where
  color : Color
  codels : List Codel

namespace Block

/-- Which codels have been met, and those of them whose neighbours have not been looked at. -/
structure Frontier where
  seen : Array Bool
  pending : List Codel

/-- Adds a codel of the color that has not been met. -/
def meet (codels : Codels) (color : Color) (frontier : Frontier) (codel : Codel) : Frontier :=
  if (codels.get? codel).any (· == color) then
    let index := codels.index codel
    if frontier.seen.getD index true then frontier
    else ⟨frontier.seen.setIfInBounds index true, codel :: frontier.pending⟩
  else frontier

/-- Adds the neighbours of a codel. -/
def expand (codels : Codels) (color : Color) (frontier : Frontier) (codel : Codel) : Frontier :=
  Direction.all.foldl (fun frontier direction => meet codels color frontier (codel.next direction))
    frontier

/-- Looks at pending codels one after another. No codel becomes pending twice, so that as many rounds
as there are codels suffice. -/
def grow (codels : Codels) (color : Color) : Nat → Frontier → List Codel → List Codel
  | 0, _, found => found
  | rounds + 1, frontier, found =>
    match frontier.pending with
    | [] => found
    | codel :: pending =>
      grow codels color rounds (expand codels color { frontier with pending } codel)
        (codel :: found)

/-- The block around a codel. -/
def around? (codels : Codels) (seed : Codel) : Option Block :=
  (codels.get? seed).map fun color =>
    let untouched := Array.replicate codels.colors.size false
    let frontier := meet codels color ⟨untouched, []⟩ seed
    ⟨color, grow codels color codels.colors.size frontier []⟩

def size (block : Block) : Nat :=
  block.codels.length

/-- Whether the second codel lies at least as far as the first: in the pointer's direction, and in
the chooser's among codels equally far in the first. -/
def reachesFurther (direction side : Direction) (first second : Codel) : Bool :=
  first.along direction < second.along direction ||
    (first.along direction == second.along direction && first.along side ≤ second.along side)

/-- The codel at which the pointer leaves: the farthest in its direction, and of these the farthest
to the chooser's side. -/
def exit (block : Block) (direction : Direction) (chooser : Chooser) : Codel :=
  let side := chooser.absolute direction
  match block.codels with
  | [] => ⟨0, 0⟩
  | first :: rest =>
    rest.foldl (fun best codel => if reachesFurther direction side best codel then codel else best)
      first

end Block

end Esoterica.Piet
