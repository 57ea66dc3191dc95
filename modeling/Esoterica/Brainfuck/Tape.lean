import Esoterica.Word

/-!
A tape that ends on the left and grows on the right. The data pointer is an address on it. On a tape
that starts as a single zero the pointer always stands on a cell.
-/

namespace Esoterica.Brainfuck

/-- The cells from the first to the last, and the address in the data pointer. -/
structure Tape where
  cells : Array Word := #[0]
  pointer : Nat := 0
deriving DecidableEq, Repr

namespace Tape

def length (tape : Tape) : Nat :=
  tape.cells.size

/-- The cell under the pointer. Where there is none it reads as zero. -/
def cell (tape : Tape) : Word :=
  (tape.cells[tape.pointer]?).getD 0

/-- Moves one cell to the right; a move to right after the last cell adds a zero there. -/
def moveRight (tape : Tape) : Tape :=
  let pointer := tape.pointer + 1
  if pointer = tape.cells.size then ⟨tape.cells.push 0, pointer⟩ else ⟨tape.cells, pointer⟩

/-- Moves one cell to the left, unless the pointer stands on the first. -/
def moveLeft? (tape : Tape) : Option Tape :=
  match tape.pointer with
  | 0 => none
  | pointer + 1 => some { tape with pointer }

/-- Changes the cell under the pointer. -/
def modify (tape : Tape) (change : Word → Word) : Tape :=
  { tape with cells := tape.cells.modify tape.pointer change }

end Tape

end Esoterica.Brainfuck
