import Esoterica.Machine
import Esoterica.Whitespace.Heap
import Esoterica.Whitespace.Program

/-!
The machine for Whitespace: a heap, a pointer into the program and the addresses to return to.
-/

namespace Esoterica.Whitespace

structure Registers where
  ip : Nat := 0
  /-- Where a jump of this cycle leads. -/
  next : Option Nat := none
  heap : Heap := {}
  /-- The addresses to return to, the latest last. -/
  calls : Array Nat := #[]
deriving DecidableEq, Repr

/-- The deepest nesting of calls. -/
def callLimit : Nat := 65536

def runFault (error : Error) : Error :=
  error.during "trie::execute"

/-- Sets the instruction to go on with. -/
def goTo (state : State Registers) (index : Nat) : State Registers :=
  state.update fun registers => { registers with next := some index }

/-- Goes on at a label. -/
def jump (program : Program) (state : State Registers) (label : Label) :
    Outcome (State Registers) :=
  match program.target? label with
  | some index => ⟨goTo state index, none⟩
  | none => ⟨state, some (runFault (.undefinedLabel label.text))⟩

/-- Goes on at a label and remembers where to return to. -/
def call (program : Program) (state : State Registers) (label : Label) :
    Outcome (State Registers) :=
  if callLimit ≤ state.registers.calls.size then
    ⟨state, some ((runFault (.stackOverflow callLimit)).noting "label" label.text)⟩
  else
    let outcome := jump program state label
    if outcome.fault.isSome then outcome
    else
      ⟨outcome.state.update fun registers =>
        { registers with calls := registers.calls.push (registers.ip + 1) }, none⟩

/-- Combines the top two values of the stack. -/
def binary (program : Program) (state : State Registers) (op : BinaryOp) :
    Outcome (State Registers) :=
  let position := (program.positions[state.registers.ip]?).getD 0
  (state.onStack (·.binary op false)).mapFault fun error =>
    (runFault error).noting "position" (toString position)

/-- Stores a value in the heap. -/
def store (state : State Registers) (address value : Word) : State Registers :=
  state.update fun registers => { registers with heap := registers.heap.insert address value }

def execute (program : Program) (op : Op) (state : State Registers) :
    Outcome (State Registers) :=
  match op with
  | .push value => state.push value
  | .dup => state.onStack Stack.dup
  | .copy depth =>
    if depth < 0 then ⟨state, some (runFault (.pointerOutOfBounds "stack copy" depth.toInt))⟩
    else state.onStack (·.copy depth.toInt.toNat)
  | .swap => state.onStack Stack.swap
  | .discard => ⟨state.pop.2, none⟩
  | .slide count => ⟨{ state with stack := state.stack.slide count.toInt.toNat }, none⟩
  | .add => binary program state .add
  | .sub => binary program state .sub
  | .mul => binary program state .mul
  | .div => binary program state .floorDiv
  | .mod => binary program state .floorMod
  | .store =>
    let (value, state) := state.pop
    let (address, state) := state.pop
    ⟨store state address value, none⟩
  | .retrieve =>
    let (address, state) := state.pop
    state.push (state.registers.heap.get address)
  | .mark _ => ⟨state, none⟩
  | .call label => call program state label
  | .jump label => jump program state label
  | .jumpZero label =>
    let (value, state) := state.pop
    if value = 0 then jump program state label else ⟨state, none⟩
  | .jumpNegative label =>
    let (value, state) := state.pop
    if value < 0 then jump program state label else ⟨state, none⟩
  | .ret =>
    match state.registers.calls.back? with
    | none => ⟨state.halt .stopped, none⟩
    | some index =>
      ⟨state.update fun registers =>
        { registers with next := some index, calls := registers.calls.pop }, none⟩
  | .exit => ⟨state.halt .stopped, none⟩
  | .outChar =>
    let (value, state) := state.pop
    ⟨state.writeCode value, none⟩
  | .outNum =>
    let (value, state) := state.pop
    ⟨state.writeText value.text, none⟩
  | .readChar =>
    let (address, state) := state.pop
    let (c, state) := state.readChar
    ⟨store state address ((c.map Word.ofChar).getD (-1)), none⟩
  | .readNum =>
    let (address, state) := state.pop
    let (line, state) := state.readLine
    let value := match line with
      | some line => (Word.parse? (Text.trim line)).getD 0
      | none => -1
    ⟨store state address value, none⟩

/-- Moves to the instruction that was set, or to the next one. -/
def advance (registers : Registers) : Registers :=
  { registers with ip := registers.next.getD (registers.ip + 1), next := none }

def machine (options : Options) (program : Program) : Machine Op Registers where
  language := .whitespace
  options := options
  start := {}
  decode state := program.ops[state.registers.ip]?
  execute := execute program
  advance _ state := state.update advance
  describe := Op.name
  registers state := [
    ("call_depth", .nat state.registers.calls.size),
    ("heap_size", .nat state.registers.heap.size),
    ("ip", .nat state.registers.ip)]
  memory state :=
    state.registers.heap.cells.map fun (address, value) => (address.toInt, value.toInt)
  labels :=
    let named := program.labels.map fun (label, index) => (label.text, index)
    named.mergeSort fun first second => first.1 ≤ second.1

/-- What a log says about a program that has been loaded. -/
def loadNote (program : Program) : Note :=
  ⟨.debug, "esovm_vm::trie",
    s!"trie program: {program.ops.size} instructions, {program.labels.length} labels"⟩

end Esoterica.Whitespace
