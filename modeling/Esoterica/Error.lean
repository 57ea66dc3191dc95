/-!
What can go wrong: the kinds of errors, the stage of a program's life that each belongs to, and the
texts in which they are reported.
-/

namespace Esoterica

/-- The stage of a program's life at which an error arises. -/
inductive Stage where
  | loading
  | running
  | unsupported
  | host
deriving DecidableEq, Repr

namespace Stage

def name : Stage → String
  | loading => "syntax"
  | running => "runtime"
  | unsupported => "unsupported"
  | host => "host"

/-- The name as the first word of a sentence. -/
def title : Stage → String
  | loading => "Syntax"
  | running => "Runtime"
  | unsupported => "Unsupported"
  | host => "Host"

/-- Errors of these stages end a run and stand on its result. -/
def isFault : Stage → Bool
  | running | unsupported => true
  | loading | host => false

end Stage

inductive Kind where
  | invalidInstruction
  | unmatchedBracket
  | missingExit
  | undefinedLabel
  | duplicateLabel
  | invalidNumber
  | divisionByZero
  | pointerOutOfBounds
  | stackOverflow
  | exceededCycles
  | exceededTime
  | outputTooLong
  | unsupportedFeature
  | configInvalid
  | invalidArgument
  | parseFailed
  | fileNotFound
  | permissionDenied
  | ioFailed
  | unexpected
deriving DecidableEq, Repr

namespace Kind

def all : List Kind :=
  [invalidInstruction, unmatchedBracket, missingExit, undefinedLabel, duplicateLabel, invalidNumber,
    divisionByZero, pointerOutOfBounds, stackOverflow, exceededCycles, exceededTime, outputTooLong,
    unsupportedFeature, configInvalid, invalidArgument, parseFailed, fileNotFound, permissionDenied,
    ioFailed, unexpected]

def name : Kind → String
  | invalidInstruction => "InvalidInstruction"
  | unmatchedBracket => "UnmatchedBracket"
  | missingExit => "MissingExit"
  | undefinedLabel => "UndefinedLabel"
  | duplicateLabel => "DuplicateLabel"
  | invalidNumber => "InvalidNumber"
  | divisionByZero => "DivisionByZero"
  | pointerOutOfBounds => "PointerOutOfBounds"
  | stackOverflow => "StackOverflow"
  | exceededCycles => "ExceededCycles"
  | exceededTime => "ExceededTime"
  | outputTooLong => "OutputTooLong"
  | unsupportedFeature => "UnsupportedFeature"
  | configInvalid => "ConfigInvalid"
  | invalidArgument => "InvalidArgument"
  | parseFailed => "ParseFailed"
  | fileNotFound => "FileNotFound"
  | permissionDenied => "PermissionDenied"
  | ioFailed => "IoFailed"
  | unexpected => "Unexpected"

def ofName? (text : String) : Option Kind :=
  all.find? (·.name == text)

/-- The stage at which errors of a kind arise. -/
def stage : Kind → Stage
  | invalidInstruction | unmatchedBracket | missingExit | undefinedLabel | duplicateLabel
  | invalidNumber => .loading
  | divisionByZero | pointerOutOfBounds | stackOverflow | exceededCycles | exceededTime
  | outputTooLong => .running
  | unsupportedFeature => .unsupported
  | configInvalid | invalidArgument | parseFailed | fileNotFound | permissionDenied | ioFailed
  | unexpected => .host

/-- A run that meets one of its three limits ends with an error of such a kind. -/
def isLimit : Kind → Bool
  | exceededCycles | exceededTime | outputTooLong => true
  | _ => false

end Kind

/-- Why the operating system refuses what it is asked for. -/
inductive SystemFailure where
  | notFound
  | permissionDenied
  | other
deriving DecidableEq, Repr

namespace SystemFailure

def name : SystemFailure → String
  | notFound => "NotFound"
  | permissionDenied => "PermissionDenied"
  | other => "Other"

/-- The kind of error that reports a failure. -/
def kind : SystemFailure → Kind
  | notFound => .fileNotFound
  | permissionDenied => .permissionDenied
  | other => .ioFailed

/-- The failure of a name; any other one is told by its text alone. -/
def ofName (text : String) : SystemFailure :=
  ([notFound, permissionDenied].find? (·.name == text)).getD other

end SystemFailure

/-- An error with what is known about it. The context lists further facts in the order in which they
were noted. -/
structure Error where
  kind : Kind
  message : String
  stage : Stage := kind.stage
  operation : String := ""
  context : List (String × String) := []
  source : Option String := none
deriving DecidableEq, Repr

namespace Error

/-- Names the operation that failed. An operation named before is kept as the one it called. -/
def during (error : Error) (operation : String) : Error :=
  { error with
    operation
    context := error.context ++ if error.operation = "" then [] else [("called", error.operation)] }

/-- Adds one fact to the context. -/
def noting (error : Error) (key value : String) : Error :=
  { error with context := error.context ++ [(key, value)] }

/-- The first value that the context holds for a key. -/
def lookup (error : Error) (key : String) : Option String :=
  (error.context.find? (·.1 == key)).map (·.2)

def isFault (error : Error) : Bool :=
  error.stage.isFault

/-- The closing line of a run that ended with this error. -/
def annotation (error : Error) : String :=
  match error.kind with
  | .exceededCycles => s!"Exceeded cycle limit: {error.message}"
  | .exceededTime => s!"Exceeded time limit: {error.message}"
  | .outputTooLong => s!"Output too long: {error.message}"
  | .unsupportedFeature => s!"Unsupported feature: {error.message}"
  | kind => s!"{error.stage.title} error ({kind.name}): {error.message}"

/-- The error on one line, for logs. -/
def line (error : Error) : String :=
  let facts := error.context.map fun (key, value) => s!"{key}: {value}"
  let parts := [
    s!"{error.kind.name} ({error.stage.name})",
    if error.operation = "" then "" else s!" at {error.operation}",
    if facts.isEmpty then "" else ", context \x7b " ++ ", ".intercalate facts ++ " \x7d",
    if error.message = "" then "" else s!" => {error.message}"]
  String.join parts

/-- Everything known about the error, a paragraph for each part. -/
def details (error : Error) : String :=
  let facts := error.context.map fun (key, value) => s!"        {key}: {value}\n"
  let parts := [
    s!"{error.kind.name} ({error.stage.name}) at {error.operation}\n",
    if error.message = "" then "" else s!"\n    Message: {error.message}\n",
    if facts.isEmpty then "" else "\n    Context:\n" ++ String.join facts,
    match error.source with
    | none => ""
    | some source => s!"\n    Source: {source}\n"]
  String.join parts

def unmatchedBracket (bracket : Char) (position : Nat) : Error :=
  ({ kind := .unmatchedBracket
     message := s!"unmatched '{bracket}' at position {position}" } : Error).noting
    "position" (toString position)

def invalidInstruction (position : Nat) (detail : String) : Error :=
  ({ kind := .invalidInstruction
     message := s!"invalid instruction at position {position}: {detail}" } : Error).noting
    "position" (toString position)

def missingExit (exit : String) : Error :=
  { kind := .missingExit, message := s!"program has no {exit} instruction" }

def undefinedLabel (label : String) : Error :=
  ({ kind := .undefinedLabel, message := s!"label '{label}' is not defined" } : Error).noting
    "label" label

def duplicateLabel (label : String) (position : Nat) : Error :=
  (({ kind := .duplicateLabel
      message := s!"label '{label}' marked again at position {position}" } : Error).noting
    "label" label).noting "position" (toString position)

def invalidNumber (position : Nat) (reason : String) : Error :=
  ({ kind := .invalidNumber
     message := s!"invalid number at position {position}: {reason}" } : Error).noting
    "position" (toString position)

def divisionByZero : Error :=
  { kind := .divisionByZero, message := "division by zero" }

def pointerOutOfBounds (moved : String) (position : Int) : Error :=
  ({ kind := .pointerOutOfBounds
     message := s!"{moved} moved out of bounds to {position}" } : Error).noting
    "position" (toString position)

def stackOverflow (limit : Nat) : Error :=
  ({ kind := .stackOverflow
     message := s!"stack depth exceeded maximum {limit}" } : Error).noting
    "max_depth" (toString limit)

def exceededCycles (limit : Nat) : Error :=
  ({ kind := .exceededCycles, message := s!"reached {limit} cycles" } : Error).noting
    "max_cycles" (toString limit)

def exceededTime (milliseconds : Nat) : Error :=
  ({ kind := .exceededTime, message := s!"ran for {milliseconds}ms" } : Error).noting
    "max_time_ms" (toString milliseconds)

def outputTooLong (limit : Nat) : Error :=
  ({ kind := .outputTooLong, message := s!"reached {limit} characters" } : Error).noting
    "max_output" (toString limit)

def unsupported (feature : String) : Error :=
  ({ kind := .unsupportedFeature, message := s!"'{feature}' is not supported" } : Error).noting
    "feature" feature

def configInvalid (message : String) : Error :=
  { kind := .configInvalid, message }

def invalidArgument (message : String) : Error :=
  { kind := .invalidArgument, message }

def parseFailed (message : String) : Error :=
  { kind := .parseFailed, message }

/-- A failure of the operating system. Its text is kept as the source, too. -/
def ofSystem (failure : SystemFailure) (message : String) : Error :=
  { kind := failure.kind, message, operation := "io", source := some message }

end Error

/-- What an operation leaves behind: the state, and the error that stopped it if there is one. -/
structure Outcome (State : Type) where
  state : State
  fault : Option Error := none
deriving DecidableEq, Repr

namespace Outcome

variable {State Other : Type}

/-- Continues with another operation unless the first one failed. -/
def andThen (first : Outcome State) (next : State → Outcome State) : Outcome State :=
  match first.fault with
  | none => next first.state
  | some _ => first

/-- Changes how a failure is reported. -/
def mapFault (outcome : Outcome State) (change : Error → Error) : Outcome State :=
  { outcome with fault := outcome.fault.map change }

/-- Puts the state into a larger one. -/
def within (outcome : Outcome State) (embed : State → Other) : Outcome Other :=
  ⟨embed outcome.state, outcome.fault⟩

end Outcome

end Esoterica
