import Esoterica.Machine.Note
import Esoterica.Machine.Run
import Esoterica.Options

/-!
Machines and how they run. A cycle decodes the instruction under the pointer, carries it out and
moves on. After each cycle that does not end the program the limits are checked, the cycles first,
then the time, then the output.
-/

namespace Esoterica

/-- A machine with a program in it. -/
structure Machine (Op Registers : Type) where
  language : Language
  options : Options
  /-- The registers before the first cycle. -/
  start : Registers
  /-- The instruction under the pointer; without one the program ends. -/
  decode : State Registers → Option Op
  execute : Op → State Registers → Outcome (State Registers)
  /-- Moves the pointer past an instruction that has been carried out. -/
  advance : Op → State Registers → State Registers
  /-- The instruction in a log. -/
  describe : Op → String
  registers : State Registers → List (String × Json)
  memory : State Registers → List (Int × Int)
  labels : List (String × Nat) := []
  /-- The path of the program as an image, or why there is none. -/
  picture : State Registers → Option Image × Option Note := fun _ => (none, none)

/-- A run that has ended. -/
structure Finish (Registers : Type) where
  state : State Registers
  cycles : Nat
  fault : Option Error

namespace Machine

variable {Op Registers : Type}

/-- The state before the first cycle. -/
def initial (machine : Machine Op Registers) (input : String) : State Registers :=
  { registers := machine.start, input := .ofString input }

/-- One cycle. The pointer moves on unless the instruction failed or ended the program. -/
def step (machine : Machine Op Registers) (state : State Registers) :
    Outcome (State Registers) :=
  match machine.decode state with
  | none => ⟨state.halt .ranOff, none⟩
  | some op =>
    let outcome := machine.execute op state
    if outcome.fault.isNone && !outcome.state.done then
      ⟨machine.advance op outcome.state, none⟩
    else outcome

/-- Names the run as what met a limit. -/
def limitFault (error : Error) : Error :=
  error.during "machine::run"

/-- Runs from a state in which the program has not ended, with room for one cycle and `more` after
it. A failed instruction does not count as a cycle. -/
@[specialize] def driveWith {m : Type → Type} [Monad m] (machine : Machine Op Registers)
    (timeUp : m Bool) (state : State Registers) (cycles more : Nat) : m (Finish Registers) :=
  let outcome := machine.step state
  match outcome.fault with
  | some fault => pure ⟨outcome.state, cycles, some fault⟩
  | none =>
    if outcome.state.done then pure ⟨outcome.state, cycles + 1, none⟩
    else
      let stopped (error : Error) : Finish Registers :=
        ⟨outcome.state, cycles + 1, some (limitFault error)⟩
      match more with
      | 0 => pure (stopped (.exceededCycles machine.options.maxCycles))
      | more + 1 => do
        if ← timeUp then
          pure (stopped (.exceededTime machine.options.maxTime))
        else if machine.options.maxOutput ≤ outcome.state.output.length then
          pure (stopped (.outputTooLong machine.options.maxOutput))
        else machine.driveWith timeUp outcome.state (cycles + 1) more

/-- Runs the program on an input, asking the host after each cycle whether the time is up. -/
@[specialize] def runWith {m : Type → Type} [Monad m] (machine : Machine Op Registers)
    (timeUp : m Bool) (input : String) : m (Finish Registers) :=
  machine.driveWith timeUp (machine.initial input) 0 (machine.options.maxCycles - 1)

/-- Runs the program on an input with all the time it needs. -/
def finish (machine : Machine Op Registers) (input : String) : Finish Registers :=
  Id.run (machine.runWith (pure false) input)

/-- The instructions that a machine decodes in its next cycles, as long as none of them fails or
ends the program. -/
def trail (machine : Machine Op Registers) : Nat → State Registers → List Op
  | 0, _ => []
  | cycles + 1, state =>
    match machine.decode state with
    | none => []
    | some op =>
      let outcome := machine.step state
      if outcome.fault.isNone && !outcome.state.done then
        op :: machine.trail cycles outcome.state
      else [op]

def snapshot (machine : Machine Op Registers) (cycles : Nat) (state : State Registers) :
    Snapshot where
  language := machine.language
  cycles := cycles
  registers := machine.registers state
  stack := state.stack.top Snapshot.stackLimit
  memory := (machine.memory state).take Snapshot.memoryLimit
  labels := machine.labels

/-- The result of a run that has ended. -/
def conclude (machine : Machine Op Registers) (finish : Finish Registers) (elapsed : Nat) : Run where
  language := machine.language
  output := finish.state.output.text
  fault := finish.fault
  cycles := finish.cycles
  elapsed := elapsed
  snapshot :=
    if 0 < machine.options.debug then some (machine.snapshot finish.cycles finish.state) else none
  trace := (machine.picture finish.state).1

/-- The note on a limit that a run met. -/
def limitNote? (machine : Machine Op Registers) (kind : Kind) : Option Note :=
  let name := machine.language.name
  let options := machine.options
  match kind with
  | .exceededCycles => some (.ofRun .warn s!"{name} exceeded {options.maxCycles} cycles")
  | .exceededTime => some (.ofRun .warn s!"{name} exceeded {options.maxTime}ms")
  | .outputTooLong => some (.ofRun .warn s!"{name} output reached {options.maxOutput} characters")
  | _ => none

/-- One note for each instruction of a run, which is gone through once more. An instruction that
failed was decoded in a cycle that does not count. -/
def cycleNotes (machine : Machine Op Registers) (input : String) (finish : Finish Registers) :
    List Note :=
  let failed := finish.fault.any fun fault => !fault.kind.isLimit
  let cycles := if failed then finish.cycles + 1 else finish.cycles
  (machine.trail cycles (machine.initial input)).mapIdx fun index op =>
    .ofRun .trace s!"{machine.language.name} cycle {index}: {machine.describe op}"

/-- The notes of a run in the order in which they arise, as far as a log of this level shows them. -/
def notes (machine : Machine Op Registers) (level : Level) (input : String)
    (finish : Finish Registers) : List Note :=
  let name := machine.language.name
  let cycles := if level.shows .trace then machine.cycleNotes input finish else []
  let limit := finish.fault.bind fun fault => machine.limitNote? fault.kind
  let summary : Note := .ofRun .debug <| match finish.fault with
    | some fault => s!"{name} run stopped after {finish.cycles} cycles: {fault.line}"
    | none => s!"{name} run finished after {finish.cycles} cycles"
  let ending := finish.state.ending.bind Ending.note?
  let rest := ending.toList ++ limit.toList ++ [summary] ++ (machine.picture finish.state).2.toList
  cycles ++ rest.filter fun note => level.shows note.level

end Machine

end Esoterica
