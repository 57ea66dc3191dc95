import Esoterica.Plane.Pointer
import Esoterica.Text

/-!
The playfield: rows of cells, each row with a length of its own. A program walks over it, reads it
and writes it.
-/

namespace Esoterica.Befunge

structure Field where
  rows : Array (Array Word) := #[]
deriving DecidableEq, Repr

namespace Field

/-- The widest that a row may grow. -/
def widthLimit : Nat := 65536

/-- The code of a blank, which fills the gaps. -/
def space : Word := 32

/-- One row for each line, one cell for each character. -/
def ofSource (source : String) : Field :=
  ⟨((Text.lines source.toList).map fun line => (line.map Word.ofChar).toArray).toArray⟩

def height (field : Field) : Nat :=
  field.rows.size

/-- The lengths of the rows. -/
def widths (field : Field) : List Nat :=
  field.rows.toList.map (·.size)

/-- The length of the longest row. -/
def widest (field : Field) : Nat :=
  field.rows.foldl (fun width row => max width row.size) 0

/-- The number of cells. -/
def area (field : Field) : Nat :=
  field.rows.foldl (fun area row => area + row.size) 0

/-- The cell at a position, if its row reaches that far. -/
def cell? (field : Field) (x y : Word) : Option Word :=
  if 0 ≤ x ∧ 0 ≤ y then
    (field.rows[y.toInt.toNat]?).bind fun row => row[x.toInt.toNat]?
  else none

/-- Whether a number is that of a row. -/
def hasRow (field : Field) (y : Word) : Bool :=
  0 ≤ y && y.toInt.toNat < field.height

/-- A coordinate one step further on a circle. -/
def around (position delta : Word) (size : Nat) : Word :=
  Int64.ofInt ((position.toInt + delta.toInt) % size)

/-- The pointer on the other side of the box around all rows. -/
def wrapAround (field : Field) (pointer : Pointer) : Pointer :=
  { pointer with
    x := around pointer.x pointer.dx (max field.widest 1)
    y := around pointer.y pointer.dy field.height }

/-- Where a step leads: to a cell, or around the box if the field wraps, or nowhere. -/
def step? (field : Field) (wrap : Bool) (pointer : Pointer) : Option Pointer :=
  match pointer.advance?.filter fun next => (field.cell? next.x next.y).isSome with
  | some next => some next
  | none => if wrap && 0 < field.height then some (field.wrapAround pointer) else none

/-- The cell under a pointer. A field that wraps continues its rows with blanks. -/
def look? (field : Field) (wrap : Bool) (pointer : Pointer) : Option Word :=
  match field.cell? pointer.x pointer.y with
  | some cell => some cell
  | none => if wrap && field.hasRow pointer.y then some space else none

/-- A row with a cell changed; a row that does not reach it is filled up with blanks. -/
def writeRow (row : Array Word) (index : Nat) (value : Word) : Array Word :=
  if index < row.size then row.setIfInBounds index value
  else (row ++ Array.replicate (index - row.size) space).push value

/-- Writes a cell. The row must be there, and the column within the limit. -/
def put? (field : Field) (x y value : Word) : Option Field :=
  if field.hasRow y && 0 ≤ x && x.toInt.toNat < widthLimit then
    some ⟨field.rows.modify y.toInt.toNat fun row => writeRow row x.toInt.toNat value⟩
  else none

/-- Reads a cell: zero outside the rows, a blank past the end of one. -/
def get (field : Field) (x y : Word) : Word :=
  if field.hasRow y && 0 ≤ x then (field.cell? x y).getD space else 0

end Field

end Esoterica.Befunge
