import Esoterica.Brainfuck.Program
import Esoterica.Brainfuck.Tape
import Esoterica.Machine

/-!
The machine for Brainfuck: a tape of words and a pointer into the program.
-/

namespace Esoterica.Brainfuck

structure Registers where
  tape : Tape := {}
  ip : Nat := 0
deriving DecidableEq, Repr

/-- The fault of a move off the left end of the tape. -/
def offTape (program : Program) (ip : Nat) : Error :=
  let position := (program.positions[ip]?).getD 0
  ((Error.pointerOutOfBounds "data pointer" (-1)).during "tape::execute").noting
    "source_position" (toString position)

/-- Changes the tape. -/
def onTape (state : State Registers) (change : Tape → Tape) : State Registers :=
  state.update fun registers => { registers with tape := change registers.tape }

/-- Sets the pointer to the other end of a loop. -/
def jump (program : Program) (state : State Registers) : State Registers :=
  state.update fun registers => { registers with ip := program.partner registers.ip }

def execute (program : Program) (op : Op) (state : State Registers) :
    Outcome (State Registers) :=
  match op with
  | .right => ⟨onTape state Tape.moveRight, none⟩
  | .left =>
    match state.registers.tape.moveLeft? with
    | some moved => ⟨onTape state fun _ => moved, none⟩
    | none => ⟨state, some (offTape program state.registers.ip)⟩
  | .increment => ⟨onTape state (·.modify (· + 1)), none⟩
  | .decrement => ⟨onTape state (·.modify (· - 1)), none⟩
  | .output => ⟨state.writeCode state.registers.tape.cell, none⟩
  | .input =>
    match state.readChar with
    | (some c, state) => ⟨onTape state (·.modify fun _ => Word.ofChar c), none⟩
    | (none, state) => ⟨state.halt .inputEnded, none⟩
  | .loopOpen => ⟨if state.registers.tape.cell = 0 then jump program state else state, none⟩
  | .loopClose => ⟨if state.registers.tape.cell = 0 then state else jump program state, none⟩

def machine (options : Options) (program : Program) : Machine Op Registers where
  language := .brainfuck
  options := options
  start := {}
  decode state := program.ops[state.registers.ip]?
  execute := execute program
  advance _ state := state.update fun registers => { registers with ip := registers.ip + 1 }
  describe := Op.name
  registers state := [
    ("ip", .nat state.registers.ip),
    ("pointer", .nat state.registers.tape.pointer),
    ("tape_len", .nat state.registers.tape.length)]
  memory state := state.registers.tape.cells.toList.mapIdx fun address value => (address, value.toInt)

/-- What a log says about a program that has been loaded. -/
def loadNote (program : Program) : Note :=
  ⟨.debug, "esovm_vm::tape",
    s!"tape program: {program.ops.size} ops, {program.loops.length} loops"⟩

end Esoterica.Brainfuck
