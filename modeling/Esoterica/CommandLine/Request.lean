import Esoterica.CommandLine.Arguments
import Esoterica.Language
import Esoterica.Options

/-!
What a command line asks for.
-/

namespace Esoterica.CommandLine

/-- A program to run, and how to run it. -/
structure RunRequest where
  language : String
  file : String
  input : Option String := none
  inputFile : Option String := none
  config : Option String := none
  strict : Bool := false
  normalize : Bool := false
  dialect : Option String := none
  wrap : Bool := false
  codelSize : Option Nat := none
  trace : Option String := none
  seed : Option UInt64 := none
  maxCycles : Option Nat := none
  maxTime : Option Nat := none
  maxOutput : Option Nat := none

inductive Request where
  | run (request : RunRequest)
  | reference (language : Option String) (json : Bool)
  | languages

/-- A request, and how much detail is wanted. -/
structure Invocation where
  request : Request
  verbosity : Nat

/-- The options of every command. -/
def commonSwitches : List Switch :=
  [⟨"verbose", some 'v', none⟩, ⟨"help", some 'h', none⟩]

/-- The options before the name of the command. -/
def leadingSwitches : List Switch :=
  commonSwitches ++ [⟨"version", some 'V', none⟩]

def runGrammar : Grammar where
  switches := commonSwitches ++ [
    ⟨"input", some 'i', some .text⟩,
    ⟨"input-file", none, some .path⟩,
    ⟨"config", some 'c', some .path⟩,
    ⟨"strict", none, none⟩,
    ⟨"normalize", none, none⟩,
    ⟨"dialect", none, some .text⟩,
    ⟨"wrap", none, none⟩,
    ⟨"codel-size", none, some .size⟩,
    ⟨"trace", none, some .path⟩,
    ⟨"seed", none, some .count⟩,
    ⟨"max-cycles", none, some .count⟩,
    ⟨"max-time-ms", none, some .count⟩,
    ⟨"max-output", none, some .count⟩]
  words := [.text, .path]

def referenceGrammar : Grammar where
  switches := commonSwitches ++ [⟨"json", none, none⟩]
  words := [.text]

def languagesGrammar : Grammar where
  switches := commonSwitches
  words := []

/-- The names of the commands. -/
def commandNames : List String :=
  ["run", "schema", "languages", "help"]

/-- The request to run a program. Its input comes from one place. -/
def readRun (arguments : Arguments) : Except Refusal RunRequest := do
  let [language, file] := arguments.words | .error .usage
  let input := arguments.value? "input"
  let inputFile := arguments.value? "input-file"
  if input.isSome && inputFile.isSome then
    .error .usage
  let count (name : String) : Option Nat := (arguments.value? name).bind readCount
  return {
    language, file, input, inputFile
    config := arguments.value? "config"
    strict := arguments.hasFlag "strict"
    normalize := arguments.hasFlag "normalize"
    dialect := arguments.value? "dialect"
    wrap := arguments.hasFlag "wrap"
    codelSize := (arguments.value? "codel-size").bind readSize
    trace := arguments.value? "trace"
    seed := (count "seed").map UInt64.ofNat
    maxCycles := count "max-cycles"
    maxTime := count "max-time-ms"
    maxOutput := count "max-output" }

/-- Help is there for everything and for each command. -/
def readHelp : List String → Refusal
  | [] => .help
  | [name] => if commandNames.contains name then .help else .usage
  | _ => .usage

/-- The arguments of the named command and what they ask for. -/
def readRequest (name : String) (rest : List String) : Except Refusal (Arguments × Request) := do
  if name = "run" then
    let arguments ← readArguments runGrammar {} rest
    return (arguments, .run (← readRun arguments))
  else if name = "schema" then
    let arguments ← readArguments referenceGrammar {} rest
    return (arguments, .reference arguments.words.head? (arguments.hasFlag "json"))
  else if name = "languages" then
    let arguments ← readArguments languagesGrammar {} rest
    return (arguments, .languages)
  else if name = "help" then
    .error (readHelp rest)
  else
    .error .usage

/-- Reads a command line. Detail that is asked for after the name of the command counts instead of
what was asked for before it. -/
def read (line : List String) : Except Refusal Invocation := do
  let (leading, name, rest) ← readCommand leadingSwitches {} line
  let (arguments, request) ← readRequest name rest
  let verbosity := if arguments.verbosity = 0 then leading.verbosity else arguments.verbosity
  return ⟨request, verbosity⟩

/-- Puts what a command line says over the options of a configuration. -/
def RunRequest.options (request : RunRequest) (verbosity : Nat) (base : Options) :
    Except Error Options := do
  let dialect ← match request.dialect with
    | some name => Dialect.ofName name
    | none => .ok base.dialect
  let options : Options := {
    debug := max base.debug verbosity
    strict := base.strict || request.strict
    normalize := base.normalize || request.normalize
    dialect := dialect
    wrap := base.wrap || request.wrap
    codelSize := request.codelSize.getD base.codelSize
    trace := base.trace || request.trace.isSome
    seed := request.seed.or base.seed
    maxCycles := request.maxCycles.getD base.maxCycles
    maxTime := request.maxTime.getD base.maxTime
    maxOutput := request.maxOutput.getD base.maxOutput }
  options.validate
  return options

end Esoterica.CommandLine
