import Esoterica.Error
import Esoterica.Malbolge.Op
import Esoterica.Malbolge.Trits
import Esoterica.Options
import Esoterica.Text

/-!
Malbolge programs: texts whose every character is an instruction at the address where it comes to
stand. Loading fills the memory behind them with the crazy operation.
-/

namespace Esoterica.Malbolge

abbrev Memory := Vector Int memorySize

def loadFault (error : Error) : Error :=
  error.during "ternary::load"

/-- Refuses a character that cannot stand at an address. -/
def checkChar (address : Nat) (c : Char) : Except Error Unit :=
  let code := c.toNat
  let value := (code + address) % 94
  if memorySize ≤ address then
    .error (loadFault (.invalidInstruction address "program does not fit in memory"))
  else if code < 33 ∨ 126 < code then
    .error (loadFault (.invalidInstruction address s!"'{c}' is not printable ASCII"))
  else if (Op.ofValue? value).isNone then
    let error := loadFault (.invalidInstruction address s!"'{c}' is not a legal instruction here")
    .error (error.noting "decoded" (toString value))
  else .ok ()

/-- The cells of a text without blanks that starts at an address. -/
def loadCells (address : Nat) : List Char → Except Error (List Int)
  | [] => .ok []
  | c :: rest => do
    checkChar address c
    let cells ← loadCells (address + 1) rest
    return (c.toNat : Int) :: cells

/-- The value some cells before the end, zero before the first cell. -/
def previous (cells : Array Int) (distance : Nat) : Int :=
  if distance ≤ cells.size then (cells[cells.size - distance]?).getD 0 else 0

/-- Adds cells, each of them the crazy combination of the two before it. -/
def fill (cells : Array Int) : Nat → Array Int
  | 0 => cells
  | count + 1 => fill (cells.push (crazy (previous cells 2) (previous cells 1))) count

/-- The memory with a program in its first cells. -/
def image (cells : Array Int) : Memory :=
  let filled := fill cells (memorySize - cells.size)
  Vector.ofFn fun address => (filled[address.val]?).getD 0

/-- A memory image, and how many of its cells the text fills. -/
structure Program where
  image : Memory
  loaded : Nat

namespace Program

/-- The program of a source text, in which blanks do not count. -/
def parse (source : String) : Except Error Program := do
  let cells ← loadCells 0 (source.toList.filter fun c => !Text.isBlank c)
  return { image := Malbolge.image cells.toArray, loaded := cells.length }

/-- The program of a source text, under options with which it can run. -/
def load (options : Options) (source : String) : Except Error Program := do
  options.validate
  parse source

end Program

end Esoterica.Malbolge
