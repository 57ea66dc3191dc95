import Esoterica.Stack
import Esoterica.Input
import Esoterica.Output
import Esoterica.Plane.Pointer

/-!
The state of a run. Every machine has a stack, an input and an output; its registers are its own.
-/

namespace Esoterica

/-- Why a program came to its end. -/
inductive Ending where
  /-- There is no instruction to carry out. -/
  | ranOff
  /-- An instruction asked for the end. -/
  | stopped
  /-- A read found the input spent. -/
  | inputEnded
  /-- The pointer had a step to take that leads off the grid. -/
  | leftGrid (pointer : Pointer)
  /-- Every way off a white codel is blocked. -/
  | walledIn (x y : Int)
  /-- Every exit of a colored block is blocked. -/
  | noExit (x y : Int)
  /-- A slide over white came back to a codel in the same direction. -/
  | revisited (x y : Int) (heading : Direction)
deriving DecidableEq, Repr

structure State (Registers : Type) where
  registers : Registers
  stack : Stack := .empty
  input : Input := {}
  output : Output := .empty
  ending : Option Ending := none
deriving DecidableEq, Repr

namespace State

variable {Registers : Type}

/-- Whether the program has come to its end. -/
def done (state : State Registers) : Bool :=
  state.ending.isSome

def halt (state : State Registers) (ending : Ending) : State Registers :=
  { state with ending := some ending }

/-- Changes the registers. -/
def update (state : State Registers) (change : Registers → Registers) : State Registers :=
  { state with registers := change state.registers }

/-- The top of the stack and the state without it. -/
def pop (state : State Registers) : Word × State Registers :=
  let (value, stack) := state.stack.pop
  (value, { state with stack })

/-- Carries an operation on the stack over to the state. -/
def onStack (state : State Registers) (act : Stack → Outcome Stack) :
    Outcome (State Registers) :=
  (act state.stack).within fun stack => { state with stack }

def push (state : State Registers) (value : Word) : Outcome (State Registers) :=
  state.onStack (·.push value)

def readChar (state : State Registers) : Option Char × State Registers :=
  let (c, input) := state.input.readChar
  (c, { state with input })

def readNumber (state : State Registers) : Option Word × State Registers :=
  let (value, input) := state.input.readNumber
  (value, { state with input })

def readLine (state : State Registers) : Option (List Char) × State Registers :=
  let (line, input) := state.input.readLine
  (line, { state with input })

def writeCode (state : State Registers) (code : Word) : State Registers :=
  { state with output := state.output.writeCode code }

def writeText (state : State Registers) (text : String) : State Registers :=
  { state with output := state.output.writeText text }

end State

end Esoterica
