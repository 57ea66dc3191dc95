import Esoterica.Error
import Esoterica.Json
import Esoterica.Text

/-!
The options of a run. One record serves all five languages; each reads what concerns it.
-/

namespace Esoterica

/-- The two instruction sets of Befunge. -/
inductive Dialect where
  | befunge93
  | befunge98
deriving DecidableEq, Repr

namespace Dialect

def name : Dialect → String
  | befunge93 => "befunge93"
  | befunge98 => "befunge98"

/-- The dialect with this name, whatever the case of its ASCII letters. -/
def ofName (text : String) : Except Error Dialect :=
  let lower := Text.lowerAscii text
  if ["93", "befunge93", "befunge-93"].contains lower then .ok befunge93
  else if ["98", "befunge98", "befunge-98"].contains lower then .ok befunge98
  else .error (.configInvalid s!"unknown dialect '{lower}'")

end Dialect

structure Options where
  /-- Above zero, a result carries a snapshot of the machine. -/
  debug : Nat := 0
  /-- Brainfuck: refuse characters that are no instructions. -/
  strict : Bool := false
  /-- Bring a source text into standard form before it is loaded. -/
  normalize : Bool := false
  dialect : Dialect := .befunge93
  /-- Befunge: come back at the other edge instead of halting. -/
  wrap : Bool := false
  /-- Piet: pixels along the side of a codel. -/
  codelSize : Nat := 1
  /-- Piet: record the path and draw it. -/
  trace : Bool := false
  /-- Where the random directions start; a choice of the host if it is missing. -/
  seed : Option UInt64 := none
  maxCycles : Nat := 10000
  /-- The time limit in milliseconds. -/
  maxTime : Nat := 1000
  /-- The limit of the output in characters. -/
  maxOutput : Nat := 500
deriving DecidableEq, Repr

namespace Options

/-- The options with which a program can run at all. -/
def Valid (options : Options) : Prop :=
  1 ≤ options.codelSize ∧ 1 ≤ options.maxCycles ∧ 1 ≤ options.maxTime ∧ 1 ≤ options.maxOutput

instance (options : Options) : Decidable options.Valid :=
  inferInstanceAs (Decidable (_ ∧ _))

/-- Refuses options that are not valid, naming the first of them. -/
def validate (options : Options) : Except Error Unit :=
  if options.codelSize = 0 then .error (.configInvalid "codel_size must be at least 1")
  else if options.maxCycles = 0 then .error (.configInvalid "max_cycles must be at least 1")
  else if options.maxTime = 0 then .error (.configInvalid "max_time_ms must be at least 1")
  else if options.maxOutput = 0 then .error (.configInvalid "max_output must be at least 1")
  else .ok ()

def toJson (options : Options) : Json :=
  .record [
    ("debug", .nat options.debug),
    ("strict", .bool options.strict),
    ("normalize", .bool options.normalize),
    ("dialect", .text options.dialect.name),
    ("wrap", .bool options.wrap),
    ("codel_size", .nat options.codelSize),
    ("trace", .bool options.trace),
    ("seed", .optional (.nat ·.toNat) options.seed),
    ("max_cycles", .nat options.maxCycles),
    ("max_time_ms", .nat options.maxTime),
    ("max_output", .nat options.maxOutput)]

end Options

end Esoterica
