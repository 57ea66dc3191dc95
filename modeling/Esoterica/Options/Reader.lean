import Esoterica.Options
import Esoterica.Json.Reader
import Esoterica.Word

/-!
Options from a JSON document: an object of named fields, or an array of values in the order of the
fields. Missing fields keep their defaults.
-/

namespace Esoterica.Options

/-- A natural number below a bound, written without sign, fraction and exponent. -/
def readNat (bound : Nat) : Json → Option Nat
  | .number literal => (Word.digits? literal.toList).filter (· < bound)
  | _ => none

def readBool : Json → Option Bool
  | .bool value => some value
  | _ => none

def readSeed : Json → Option (Option UInt64)
  | .null => some none
  | value => (readNat UInt64.size value).map fun seed => some (.ofNat seed)

/-- The dialect with exactly this name. -/
def readDialectName (text : Option String) : Option Dialect :=
  if text = some "befunge93" ∨ text = some "93" then some .befunge93
  else if text = some "befunge98" ∨ text = some "98" then some .befunge98
  else none

/-- A dialect by name, or as an object whose one field has that name and is null. -/
def readDialect : Json → Option Dialect
  | .string text => readDialectName text
  | .object [(key, .null)] => readDialectName key
  | _ => none

/-- A field: its name, and how its value changes the options. -/
structure Field where
  name : String
  read : Options → Json → Option Options

/-- The fields in the order in which an array lists them. -/
def fields : List Field := [
  ⟨"debug", fun options json =>
    (readNat UInt8.size json).map fun debug => { options with debug }⟩,
  ⟨"strict", fun options json =>
    (readBool json).map fun strict => { options with strict }⟩,
  ⟨"normalize", fun options json =>
    (readBool json).map fun normalize => { options with normalize }⟩,
  ⟨"dialect", fun options json =>
    (readDialect json).map fun dialect => { options with dialect }⟩,
  ⟨"wrap", fun options json =>
    (readBool json).map fun wrap => { options with wrap }⟩,
  ⟨"codel_size", fun options json =>
    (readNat UInt32.size json).map fun codelSize => { options with codelSize }⟩,
  ⟨"trace", fun options json =>
    (readBool json).map fun trace => { options with trace }⟩,
  ⟨"seed", fun options json =>
    (readSeed json).map fun seed => { options with seed }⟩,
  ⟨"max_cycles", fun options json =>
    (readNat UInt64.size json).map fun maxCycles => { options with maxCycles }⟩,
  ⟨"max_time_ms", fun options json =>
    (readNat UInt64.size json).map fun maxTime => { options with maxTime }⟩,
  ⟨"max_output", fun options json =>
    (readNat UInt64.size json).map fun maxOutput => { options with maxOutput }⟩]

/-- Reads the fields of an object in turn. Unknown names are passed over; a known one may come only
once. -/
def readObject (seen : List String) (options : Options) :
    List (Option String × Json) → Option Options
  | [] => some options
  | (none, _) :: _ => none
  | (some key, value) :: rest =>
    match fields.find? (·.name == key) with
    | none => readObject seen options rest
    | some field =>
      if seen.contains key then none
      else match field.read options value with
        | none => none
        | some options => readObject (key :: seen) options rest

/-- Reads the values of an array, no more of them than there are fields. -/
def readArray (options : Options) : List Field → List Json → Option Options
  | _, [] => some options
  | [], _ :: _ => none
  | field :: fields, value :: rest =>
    match field.read options value with
    | none => none
    | some options => readArray options fields rest

/-- The options that a JSON value describes. -/
def ofJson (json : Json) : Except Error Options :=
  let options := match json with
    | .object members => readObject [] {} members
    | .array values => readArray {} fields values
    | _ => none
  match options with
  | some options => .ok options
  | none =>
    .error ((Error.configInvalid "invalid options: a field has the wrong type or comes twice").during
      "options::from_json")

/-- Reads a document without asking whether a program can run with its options. -/
def parseUnchecked (document : String) : Except Error Options :=
  match Json.parse? document with
  | some json => ofJson json
  | none =>
    .error ((Error.configInvalid "invalid options: not a JSON document").during
      "options::from_json")

/-- Reads a document and refuses options with which no program can run. -/
def parse (document : String) : Except Error Options := do
  let options ← parseUnchecked document
  options.validate
  return options

end Esoterica.Options
