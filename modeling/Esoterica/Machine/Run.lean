import Esoterica.Error
import Esoterica.Image
import Esoterica.Machine.Snapshot

/-!
The result of a run and the report on it.
-/

namespace Esoterica

/-- What a run leaves: its output, how it ended, and what was recorded on the way. -/
structure Run where
  language : Language
  output : String
  fault : Option Error
  cycles : Nat
  /-- The time that the run took, in milliseconds. -/
  elapsed : Nat := 0
  snapshot : Option Snapshot := none
  /-- The path of a Piet program, drawn on its image. -/
  trace : Option Image := none

namespace Run

def isOk (run : Run) : Bool :=
  run.fault.isNone

/-- The line that says how the run ended. -/
def annotation (run : Run) : String :=
  match run.fault with
  | some fault => fault.annotation
  | none =>
    let unit := if run.cycles = 1 then "cycle" else "cycles"
    s!"Finished in {run.cycles} {unit} ({run.elapsed}ms)"

/-- The output, then the closing line on a line of its own. -/
def report (run : Run) : String :=
  let last := run.output.toList.getLast?
  if last = none ∨ last = some '\n' then run.output ++ run.annotation
  else run.output ++ "\n" ++ run.annotation

end Run

end Esoterica
