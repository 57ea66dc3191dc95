import Esoterica.Machine
import Esoterica.Malbolge.Program

/-!
The machine for Malbolge: an accumulator and two pointers, one to the code and one to the data, both
into the same memory.
-/

namespace Esoterica.Malbolge

structure Registers where
  memory : Memory
  a : Int := 0
  c : Nat := 0
  d : Nat := 0
  /-- Where a jump of this cycle leads. -/
  jump : Option Nat := none

/-- The cell at an address. Behind the memory there are only zeros, which no program reaches. -/
def cell (memory : Memory) (address : Nat) : Int :=
  (memory[address]?).getD 0

/-- Writes the cell under the data pointer, and the accumulator with it. -/
def store (registers : Registers) (value : Int) : Registers :=
  { registers with memory := registers.memory.setIfInBounds registers.d value, a := value }

/-- The cell under the data pointer. -/
def datum (registers : Registers) : Int :=
  cell registers.memory registers.d

/-- The address after another, around the end of the memory. -/
def following (address : Nat) : Nat :=
  (address + 1) % memorySize

def execute (op : Op) (state : State Registers) : Outcome (State Registers) :=
  match op with
  | .jump =>
    ⟨state.update fun registers =>
      { registers with jump := some (reduce (datum registers)) }, none⟩
  | .output => ⟨state.writeCode (Int64.ofInt (state.registers.a % 256)), none⟩
  | .input =>
    let (c, state) := state.readChar
    let value := (c.map fun c => (c.toNat : Int)).getD greatestWord
    ⟨state.update fun registers => { registers with a := value }, none⟩
  | .rotate => ⟨state.update fun registers => store registers (rotate (datum registers)), none⟩
  | .move =>
    ⟨state.update fun registers => { registers with d := reduce (datum registers) }, none⟩
  | .crazy =>
    ⟨state.update fun registers => store registers (crazy (datum registers) registers.a), none⟩
  | .nop => ⟨state, none⟩
  | .halt => ⟨state.halt .stopped, none⟩

/-- Encrypts the cell that has been carried out and moves both pointers on. -/
def advance (registers : Registers) : Registers :=
  { memory :=
      registers.memory.setIfInBounds registers.c (encrypt (cell registers.memory registers.c))
    a := registers.a
    c := registers.jump.getD (following registers.c)
    d := following registers.d
    jump := none }

/-- The cells from an address on, around the end of the memory. -/
def window (memory : Memory) (start count : Nat) : List (Int × Int) :=
  (List.range count).map fun offset =>
    let address := (start + offset) % memorySize
    (address, cell memory address)

def machine (options : Options) (program : Program) : Machine Op Registers where
  language := .malbolge
  options := options
  start := { memory := program.image }
  decode state := some (Op.decode (cell state.registers.memory state.registers.c) state.registers.c)
  execute := execute
  advance _ state := state.update advance
  describe := Op.name
  registers state := [
    ("a", .int state.registers.a),
    ("c", .nat state.registers.c),
    ("d", .nat state.registers.d)]
  memory state :=
    window state.registers.memory state.registers.c 16 ++
      window state.registers.memory state.registers.d 16

/-- What a log says about a program that has been loaded. -/
def loadNote (program : Program) : Note :=
  ⟨.debug, "esovm_vm::ternary", s!"ternary program: {program.loaded} cells loaded"⟩

end Esoterica.Malbolge
