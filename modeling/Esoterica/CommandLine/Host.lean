import Esoterica.CommandLine.Request
import Esoterica.Image.Ppm
import Esoterica.Options.Reader
import Esoterica.Program
import Esoterica.Reference
import Esoterica.Text.Utf8

/-!
Carrying out a request with the help of a host, which has the files, the two outputs, a clock and
chance.
-/

namespace Esoterica.CommandLine

/-- What a command needs from outside. A file that cannot be read or written comes with the reason. -/
structure Host (m : Type → Type) where
  readFile : String → m (Except String (List UInt8))
  writeFile : String → List UInt8 → m (Except String Unit)
  print : String → m Unit
  complain : String → m Unit
  /-- The time in nanoseconds. -/
  now : m Nat
  /-- A seed for random directions. -/
  chance : m UInt64

/-- What can go wrong around a run. -/
inductive Failure where
  | unreadable (path reason : String)
  | unwritable (path reason : String)
  | refused (error : Error)

/-- The failure in a message. -/
def Failure.text : Failure → String
  | unreadable path reason => s!"cannot read {path}: {reason}"
  | unwritable path reason => s!"cannot write {path}: {reason}"
  | refused error => error.annotation

/-- The notes that are shown when detail is asked for more than once. -/
def logLevel? (verbosity : Nat) : Option Level :=
  if 3 ≤ verbosity then some .trace
  else if verbosity = 2 then some .debug
  else none

/-- A note of the command itself. -/
def commandNote (text : String) : Note :=
  ⟨.debug, "esovm", text⟩

/-- The exit code of a command that succeeds, fails or makes no sense. -/
def exitCode : Except Refusal Bool → UInt32
  | .ok true => 0
  | .ok false => 1
  | .error .usage => 2
  | .error _ => 0

/-- How the command is used. -/
def usageText : String :=
  "Usage: esovm [-v]... <command>\n\n" ++
    "Commands:\n" ++
    "  run <language> <file> [options]  run a program\n" ++
    "  schema [language] [--json]       show the instruction reference\n" ++
    "  languages                        list the languages and their aliases\n"

/-- A text and blanks up to a width. -/
def padded (width : Nat) (text : String) : String :=
  text ++ String.ofList (List.replicate (width - text.length) ' ')

/-- A language on a line of the list. -/
def languageLine (language : Language) : String :=
  let aliases := ", ".intercalate language.aliases
  s!"{padded 10 language.name} {padded 11 language.title} aliases: {aliases}\n"

section

variable {m : Type → Type} [Monad m]

/-- Shows the notes that a log of some level shows. -/
def showNotes (host : Host m) (level : Option Level) (notes : List Note) :
    ExceptT Failure m Unit :=
  match level with
  | none => pure ()
  | some level =>
    notes.forM fun note =>
      if level.shows note.level then host.complain note.line else pure ()

def refuse {Value : Type} : Except Error Value → ExceptT Failure m Value
  | .ok value => pure value
  | .error error => throw (.refused error)

def readBytes (host : Host m) (path : String) : ExceptT Failure m (List UInt8) := do
  match ← host.readFile path with
  | .ok bytes => return bytes
  | .error reason => throw (.unreadable path reason)

def readText (host : Host m) (path : String) : ExceptT Failure m String := do
  match Text.Utf8.decode? (← readBytes host path) with
  | some text => return text
  | none => throw (.unreadable path "stream did not contain valid UTF-8")

/-- The options of a run: those of the configuration, and over them those of the command line. -/
def readOptions (host : Host m) (request : RunRequest) (verbosity : Nat) :
    ExceptT Failure m Options := do
  let base ← match request.config with
    | some path => refuse (Options.parse (← readText host path))
    | none => pure {}
  refuse (request.options verbosity base)

/-- The input of a run, which is empty if there is none. -/
def readInput (host : Host m) (request : RunRequest) : ExceptT Failure m String :=
  match request.input, request.inputFile with
  | some input, _ => pure input
  | none, some path => readText host path
  | none, none => pure ""

/-- Loads the program of a request, with the notes on it. -/
def readProgram (host : Host m) (language : Language) (options : Options) (path : String) :
    ExceptT Failure m (Program × List Note) := do
  if language.isText then
    let program ← refuse (Program.ofSource options language (← readText host path))
    return (program, [program.loadNote options])
  else
    let image ← refuse (Image.Ppm.decode (← readBytes host path))
    let program ← refuse (Program.ofImage options image)
    return (program, (Piet.sizeNote? options image).toList ++ [program.loadNote options])

/-- Loads a program and runs it. Errors of the program text are failures; faults of the run are part
of its result. -/
def runProgram (host : Host m) (request : RunRequest) (verbosity : Nat) :
    ExceptT Failure m Run := do
  let level := logLevel? verbosity
  let language ← refuse (Language.ofName request.language)
  let options ← readOptions host request verbosity
  let input ← readInput host request
  showNotes host level [commandNote s!"running {language.name} program {request.file}"]
  let (program, loadNotes) ← readProgram host language options request.file
  showNotes host level loadNotes
  let seed ← match options.seed with
    | some seed => pure seed
    | none => host.chance
  let record ← program.recordWith host.now { options with seed := some seed } level input
  showNotes host level record.notes
  return record.run

/-- Writes the picture of a run if one is asked for. -/
def writeTrace (host : Host m) (request : RunRequest) (verbosity : Nat) (run : Run) :
    ExceptT Failure m Unit := do
  match request.trace, run.trace with
  | none, _ => pure ()
  | some path, some image =>
    match ← host.writeFile path (Image.Ppm.encode image) with
    | .ok _ => showNotes host (logLevel? verbosity) [commandNote s!"trace written to {path}"]
    | .error reason => throw (.unwritable path reason)
  | some _, none =>
    host.complain
      "No trace image: the path was too long to render or the language has no trace\n"

/-- Runs a program and reports on it. The answer says whether the run ended without a fault. -/
def performRun (host : Host m) (request : RunRequest) (verbosity : Nat) :
    ExceptT Failure m Bool := do
  let run ← runProgram host request verbosity
  host.print (run.report ++ "\n")
  if 0 < verbosity then
    match run.snapshot with
    | some snapshot => host.print (snapshot.toJson.pretty 0 ++ "\n")
    | none => pure ()
  writeTrace host request verbosity run
  return run.isOk

def performReference (host : Host m) (name : Option String) (json : Bool) :
    ExceptT Failure m Bool := do
  let language ← match name with
    | some name => some <$> refuse (Language.ofName name)
    | none => pure none
  let reference := Reference.about language
  host.print ((if json then reference.toJson.pretty 0 else reference.toText) ++ "\n")
  return true

/-- Carries out a request. -/
def performRequest (host : Host m) (invocation : Invocation) : ExceptT Failure m Bool :=
  match invocation.request with
  | .run request => performRun host request invocation.verbosity
  | .reference language json => performReference host language json
  | .languages => do
    host.print (String.join (Language.all.map languageLine))
    return true

/-- Reads a command line and carries it out. The answer is the exit code. -/
def perform (host : Host m) (line : List String) : m UInt32 := do
  match read line with
  | .error refusal =>
    match refusal with
    | .usage => host.complain usageText
    | .help => host.print usageText
    | .version => host.print s!"esovm {Reference.version}\n"
    return exitCode (.error refusal)
  | .ok invocation =>
    match ← (performRequest host invocation).run with
    | .ok succeeded => return exitCode (.ok succeeded)
    | .error failure =>
      host.complain s!"Error: {failure.text}\n"
      return exitCode (.ok false)

end

end Esoterica.CommandLine
