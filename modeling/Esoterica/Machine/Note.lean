import Esoterica.Machine.State
import Esoterica.Text.Control

/-!
Notes that the machines leave for a log.
-/

namespace Esoterica

/-- How important a note is. -/
inductive Level where
  | warn
  | debug
  | trace
deriving DecidableEq, Repr

namespace Level

def name : Level → String
  | warn => "warn"
  | debug => "debug"
  | trace => "trace"

/-- The name in capitals, five letters wide. -/
def label : Level → String
  | warn => "WARN "
  | debug => "DEBUG"
  | trace => "TRACE"

/-- Whether a log of the first level shows notes of the second. -/
def shows : Level → Level → Bool
  | trace, _ => true
  | debug, trace => false
  | debug, _ => true
  | warn, warn => true
  | warn, _ => false

end Level

structure Note where
  level : Level
  origin : String
  text : String
deriving DecidableEq, Repr

namespace Note

/-- The text with every line but the first set in by four blanks. -/
def indented (text : String) : String :=
  "\n    ".intercalate (text.splitOn "\n")

/-- The note as a log shows it, with the end of its line but without control sequences. -/
def line (note : Note) : String :=
  Text.Control.strip s!"[{note.level.label} {note.origin}] {indented note.text}\n"

/-- The notes of the parts that run any program. -/
def ofRun (level : Level) (text : String) : Note :=
  ⟨level, "esovm_vm::machine", text⟩

end Note

/-- What the machine notes about the end of a program. -/
def Ending.note? : Ending → Option Note
  | .ranOff | .stopped | .inputEnded => none
  | .leftGrid pointer =>
    some ⟨.debug, "esovm_vm::grid", s!"grid pointer left the grid at {pointer.text}"⟩
  | .walledIn x y =>
    some ⟨.debug, "esovm_vm::geometric", s!"white slide walled in at ({x}, {y})"⟩
  | .noExit x y =>
    some ⟨.debug, "esovm_vm::geometric", s!"block at ({x}, {y}) has no exit"⟩
  | .revisited x y heading =>
    some ⟨.debug, "esovm_vm::geometric", s!"white slide revisited ({x}, {y}) heading {heading.name}"⟩

end Esoterica
