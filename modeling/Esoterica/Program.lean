import Esoterica.Brainfuck.Machine
import Esoterica.Befunge.Machine
import Esoterica.Malbolge.Machine
import Esoterica.Whitespace.Machine
import Esoterica.Piet.Machine
import Esoterica.Source

/-!
Programs in any of the five languages, and runs of them.
-/

namespace Esoterica

/-- A program that has been loaded. -/
inductive Program where
  | brainfuck (program : Brainfuck.Program)
  | befunge (field : Befunge.Field)
  | malbolge (program : Malbolge.Program)
  | whitespace (program : Whitespace.Program)
  | piet (codels : Piet.Codels)

namespace Program

/-- Loads the text of a program. Piet programs are no texts. -/
def load (options : Options) (language : Language) (source : String) : Except Error Program :=
  match language with
  | .brainfuck => (Brainfuck.Program.load options source).map brainfuck
  | .befunge => (Befunge.load options source).map befunge
  | .malbolge => (Malbolge.Program.load options source).map malbolge
  | .whitespace => (Whitespace.Program.load options source).map whitespace
  | .piet =>
    .error ((Error.invalidArgument
      "geometric programs are images; use GeometricMachine::from_pixels").during
      "language::run_source")

/-- Loads the text of a program, in standard form if the options ask for it. -/
def ofSource (options : Options) (language : Language) (source : String) :
    Except Error Program := do
  options.validate
  load options language (if options.normalize then Source.normalize language source else source)

/-- Loads a Piet program from its codels. -/
def ofCodels (options : Options) (codels : Piet.Codels) : Except Error Program :=
  (Piet.load options codels).map piet

/-- Loads a Piet program from an image. -/
def ofImage (options : Options) (image : Image) : Except Error Program := do
  options.validate
  ofCodels options (Piet.Codels.ofImage options.codelSize image)

/-- What a log says about a program that has been loaded. -/
def loadNote (options : Options) : Program → Note
  | brainfuck program => Brainfuck.loadNote program
  | befunge field => Befunge.loadNote options field
  | malbolge program => Malbolge.loadNote program
  | whitespace program => Whitespace.loadNote program
  | piet codels => Piet.loadNote codels

/-- What can be said of the machine for a program, whichever it is. Only one of them rolls dice. -/
def withMachine {Answer : Type} (options : Options) (program : Program)
    (ask : {Op Registers : Type} → Machine Op Registers → Answer)
    (dice : Befunge.Dice := .ofSeed options.seed) : Answer :=
  match program with
  | brainfuck program => ask (Brainfuck.machine options program)
  | befunge field => ask (Befunge.machine options field dice)
  | malbolge program => ask (Malbolge.machine options program)
  | whitespace program => ask (Whitespace.machine options program)
  | piet codels => ask (Piet.machine options codels)

/-- A run together with what a log says about it. -/
structure Record where
  run : Run
  notes : List Note

/-- The record of a run that has ended, with the notes that a log of some level shows. -/
def recordOf {Op Registers : Type} (machine : Machine Op Registers) (level : Option Level)
    (input : String) (finish : Finish Registers) (elapsed : Nat) : Record where
  run := machine.conclude finish elapsed
  notes := match level with
    | some level => machine.notes level input finish
    | none => []

/-- Runs a program with all the time it needs. -/
def record (options : Options) (program : Program) (level : Option Level) (input : String)
    (dice : Befunge.Dice := .ofSeed options.seed) : Record :=
  program.withMachine options
    (fun machine => recordOf machine level input (machine.finish input) 0) dice

/-- The result of a run with all the time it needs. -/
def run (options : Options) (program : Program) (input : String)
    (dice : Befunge.Dice := .ofSeed options.seed) : Run :=
  (program.record options none input dice).run

/-- A millisecond in the unit of a clock. -/
def millisecond : Nat := 1000000

/-- Runs a program against a clock that counts nanoseconds. -/
def recordWith {m : Type → Type} [Monad m] (now : m Nat) (options : Options) (program : Program)
    (level : Option Level) (input : String) (dice : Befunge.Dice := .ofSeed options.seed) :
    m Record :=
  let against {Op Registers : Type} (machine : Machine Op Registers) : m Record := do
    let start ← now
    let timeUp := do
      let moment ← now
      return decide (options.maxTime * millisecond ≤ moment - start)
    let finish ← machine.runWith timeUp input
    let stop ← now
    return recordOf machine level input finish ((stop - start) / millisecond)
  program.withMachine options against dice

end Program

end Esoterica
