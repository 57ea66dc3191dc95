import Esoterica.Word

/-!
The arguments of a command: words, flags and options with a value. An option has a long name after
two hyphens and may have a letter after one. Its value follows an equals sign or is the next argument;
letters can share one hyphen. After two hyphens alone everything is a word. Arguments are read one
after the other, and the first that has no place or makes no sense refuses the command.
-/

namespace Esoterica.CommandLine

/-- Why there is nothing to carry out. -/
inductive Refusal where
  | usage
  | help
  | version
deriving DecidableEq, Repr

/-- A path has at least one character. -/
def readPath (text : String) : Option String :=
  if text.isEmpty then none else some text

/-- A number of pixels is below `2 ^ 32`; it may have a sign. -/
def readSize (text : String) : Option Nat :=
  (Word.parse? text.toList).bind fun value =>
    if 0 ≤ value.toInt ∧ value.toInt < UInt32.size then some value.toInt.toNat else none

/-- A count is below `2 ^ 64`. -/
def readCount (text : String) : Option Nat :=
  Word.parseNat? UInt64.size text.toList

/-- What a word or a value stands for. -/
inductive Form where
  | text
  | path
  | size
  | count
deriving DecidableEq, Repr

/-- Whether a text makes sense in a form. -/
def Form.accepts : Form → String → Bool
  | text, _ => true
  | path, given => (readPath given).isSome
  | size, given => (readSize given).isSome
  | count, given => (readCount given).isSome

/-- An option that a command knows, with the form of its value if it takes one. -/
structure Switch where
  name : String
  letter : Option Char := none
  value : Option Form := none
deriving DecidableEq, Repr

/-- The options of a command and the forms of its words. -/
structure Grammar where
  switches : List Switch
  words : List Form

/-- The arguments that a command was given. -/
structure Arguments where
  words : List String := []
  flags : List String := []
  values : List (String × String) := []

namespace Arguments

def value? (arguments : Arguments) (name : String) : Option String :=
  arguments.values.lookup name

def hasFlag (arguments : Arguments) (name : String) : Bool :=
  arguments.flags.contains name

/-- How often more detail was asked for. -/
def verbosity (arguments : Arguments) : Nat :=
  min (arguments.flags.count "verbose") 255

/-- There is one word for each form. -/
def addWord (forms : List Form) (arguments : Arguments) (word : String) :
    Except Refusal Arguments :=
  if (forms[arguments.words.length]?).any (·.accepts word) then
    .ok { arguments with words := arguments.words ++ [word] }
  else .error .usage

/-- Only the flag for more detail may come again. -/
def addFlag (arguments : Arguments) (name : String) : Except Refusal Arguments :=
  if name = "help" then .error .help
  else if name = "version" then .error .version
  else if name ≠ "verbose" ∧ arguments.hasFlag name then .error .usage
  else .ok { arguments with flags := name :: arguments.flags }

/-- A value is given once. -/
def addValue (arguments : Arguments) (name : String) (form : Form) (value : String) :
    Except Refusal Arguments :=
  if (arguments.value? name).isSome || !form.accepts value then .error .usage
  else .ok { arguments with values := (name, value) :: arguments.values }

end Arguments

/-- Whether an argument is a word or a value; a hyphen alone is one. -/
def isWord (argument : String) : Bool :=
  argument = "-" || argument.toList.head? != some '-'

/-- An option that waits for its value. -/
structure Waiting where
  name : String
  form : Form
deriving DecidableEq, Repr

/-- Reads letters that share a hyphen. A letter that takes a value takes the letters after it, or
else waits for the next argument. -/
def readLetters (switches : List Switch) (arguments : Arguments) :
    List Char → Except Refusal (Arguments × Option Waiting)
  | [] => .ok (arguments, none)
  | letter :: rest =>
    match switches.find? (·.letter == some letter) with
    | none => .error .usage
    | some switch =>
      match switch.value with
      | some form =>
        match rest with
        | [] => .ok (arguments, some ⟨switch.name, form⟩)
        | '=' :: value =>
          (arguments.addValue switch.name form (String.ofList value)).map fun arguments =>
            (arguments, none)
        | value =>
          (arguments.addValue switch.name form (String.ofList value)).map fun arguments =>
            (arguments, none)
      | none =>
        match arguments.addFlag switch.name with
        | .error refusal => .error refusal
        | .ok arguments => readLetters switches arguments rest

/-- Reads a long name with the value that may be attached to it. -/
def readName (switches : List Switch) (arguments : Arguments) (name : List Char)
    (attached : Option (List Char)) : Except Refusal (Arguments × Option Waiting) :=
  match switches.find? (·.name == String.ofList name) with
  | none => .error .usage
  | some switch =>
    match switch.value, attached with
    | some form, none => .ok (arguments, some ⟨switch.name, form⟩)
    | some form, some value =>
      (arguments.addValue switch.name form (String.ofList value)).map fun arguments =>
        (arguments, none)
    | none, none => (arguments.addFlag switch.name).map fun arguments => (arguments, none)
    | none, some _ => .error .usage

/-- Reads an argument that is no word, and says which option waits for its value. -/
def readOption (switches : List Switch) (arguments : Arguments) (argument : String) :
    Except Refusal (Arguments × Option Waiting) :=
  match argument.toList with
  | '-' :: '-' :: long =>
    let attached := match long.dropWhile (· != '=') with
      | [] => none
      | _ :: value => some value
    readName switches arguments (long.takeWhile (· != '=')) attached
  | letters => readLetters switches arguments (letters.drop 1)

/-- Reads the arguments of a command. -/
def readArguments (grammar : Grammar) (arguments : Arguments) :
    List String → Except Refusal Arguments
  | [] => .ok arguments
  | argument :: rest =>
    if argument = "--" then rest.foldlM (Arguments.addWord grammar.words) arguments
    else if isWord argument then
      match arguments.addWord grammar.words argument with
      | .error refusal => .error refusal
      | .ok arguments => readArguments grammar arguments rest
    else
      match readOption grammar.switches arguments argument with
      | .error refusal => .error refusal
      | .ok (arguments, none) => readArguments grammar arguments rest
      | .ok (arguments, some waiting) =>
        match rest with
        | [] => .error .usage
        | value :: rest =>
          if isWord value then
            match arguments.addValue waiting.name waiting.form value with
            | .error refusal => .error refusal
            | .ok arguments => readArguments grammar arguments rest
          else .error .usage

/-- Reads options up to the first word, which names the command. None of them takes a value. -/
def readCommand (switches : List Switch) (arguments : Arguments) :
    List String → Except Refusal (Arguments × String × List String)
  | [] => .error .usage
  | argument :: rest =>
    if argument = "--" then .error .usage
    else if isWord argument then .ok (arguments, argument, rest)
    else
      match readOption switches arguments argument with
      | .error refusal => .error refusal
      | .ok (arguments, _) => readCommand switches arguments rest

end Esoterica.CommandLine
