import Esoterica.Language
import Esoterica.Piet.Command
import Esoterica.Whitespace.Op

/-!
The instructions of each language in words.
-/

namespace Esoterica.Reference

/-- An instruction: its name, how it is written and what it does. -/
structure Entry where
  name : String
  encoding : String
  description : String

/-- Instructions that belong together. -/
structure Group where
  name : String
  entries : List Entry

/-- What there is to know about a language. -/
structure Chapter where
  description : String
  memory : String
  groups : List Group

namespace Chapter

def brainfuck : Chapter where
  description :=
    "Linear tape machine. Characters other than the eight instructions are comments unless " ++
      "strict mode is on."
  memory := "Tape of unbounded integer cells growing to the right; moving left of cell 0 faults."
  groups := [
    ⟨"Pointer and cells", [
      ⟨"right", ">", "Move the data pointer right"⟩,
      ⟨"left", "<", "Move the data pointer left"⟩,
      ⟨"increment", "+", "Add one to the current cell"⟩,
      ⟨"decrement", "-", "Subtract one from the current cell"⟩]⟩,
    ⟨"I/O", [
      ⟨"output", ".", "Write the current cell as a character"⟩,
      ⟨"input", ",", "Read a character into the current cell; end of input halts"⟩]⟩,
    ⟨"Control", [
      ⟨"loop", "[", "Jump past the matching ] if the current cell is zero"⟩,
      ⟨"end loop", "]", "Jump back to the matching [ if the current cell is nonzero"⟩]⟩]

def befunge : Chapter where
  description :=
    "Two-dimensional machine. The pointer starts top-left heading right; leaving the grid halts " ++
      "unless wrapping is enabled."
  memory := "Program grid, readable and writable with g and p; integer stack."
  groups := [
    ⟨"Stack and arithmetic", [
      ⟨"digit", "0-9", "Push the digit"⟩,
      ⟨"arithmetic", "+ - * / %", "Pop b, a; push a op b. Division by zero faults"⟩,
      ⟨"not", "!", "Push 1 if the popped value is zero, else 0"⟩,
      ⟨"greater", "\x60", "Pop b, a; push 1 if a > b"⟩,
      ⟨"dup", ":", "Duplicate the top value"⟩,
      ⟨"swap", "\\", "Swap the top two values"⟩,
      ⟨"discard", "$", "Pop and discard"⟩]⟩,
    ⟨"Direction", [
      ⟨"go", "> < ^ v", "Set the direction"⟩,
      ⟨"random", "?", "Pick one of the four directions"⟩,
      ⟨"horizontal if", "_", "Pop; right if zero, else left"⟩,
      ⟨"vertical if", "|", "Pop; down if zero, else up"⟩,
      ⟨"bridge", "#", "Skip the next cell"⟩,
      ⟨"halt", "@", "End the program"⟩]⟩,
    ⟨"Grid and I/O", [
      ⟨"string mode", "\"", "Toggle pushing cells by code point"⟩,
      ⟨"put", "p", "Pop y, x, v; write v at (x, y)"⟩,
      ⟨"get", "g", "Pop y, x; push the cell at (x, y), 0 outside the grid"⟩,
      ⟨"output number", ".", "Pop and write as a number followed by a space"⟩,
      ⟨"output char", ",", "Pop and write as a character"⟩,
      ⟨"input number", "&", "Read a number; -1 at end of input"⟩,
      ⟨"input char", "~", "Read a character; -1 at end of input"⟩]⟩,
    ⟨"Befunge-98 (dialect 98)", [
      ⟨"hex digit", "a-f", "Push 10 to 15"⟩,
      ⟨"clear", "n", "Clear the stack"⟩,
      ⟨"reflect", "r", "Reverse the direction"⟩,
      ⟨"turn", "[ ]", "Turn left or right"⟩,
      ⟨"compare", "w", "Pop b, a; turn left if a < b, right if a > b"⟩,
      ⟨"jump", "j", "Pop n; move n cells"⟩,
      ⟨"fetch", "'", "Push the next cell and skip it"⟩,
      ⟨"store", "s", "Pop into the next cell and skip it"⟩,
      ⟨"skip", ";", "Skip to the matching ;"⟩,
      ⟨"delta", "x", "Pop dy, dx; set the direction vector"⟩,
      ⟨"quit", "q", "End the program"⟩,
      ⟨"unsupported", "h l m t i o = y k \x7b \x7d u ( )",
        "Fault as an unsupported feature"⟩]⟩]

def malbolge : Chapter where
  description :=
    "Self-modifying ternary machine. The instruction is (cell + address) mod 94 and every " ++
      "executed cell is encrypted afterwards."
  memory := "59049 ten-trit words; registers a, c and d."
  groups := [
    ⟨"Instructions (by decoded value)", [
      ⟨"jump", "4", "c = [d]"⟩,
      ⟨"output", "5", "Write a mod 256 as a character"⟩,
      ⟨"input", "23", "Read a character into a; end of input reads 59048"⟩,
      ⟨"rotate", "39", "a = [d] = [d] rotated one trit right"⟩,
      ⟨"move", "40", "d = [d]"⟩,
      ⟨"crazy", "62", "a = [d] = crz([d], a)"⟩,
      ⟨"nop", "68", "Nothing; any other value also runs as nop"⟩,
      ⟨"halt", "81", "End the program"⟩]⟩]

/-- The name and the description of a Whitespace instruction. -/
def whitespaceEntry : Whitespace.Op → String × String
  | .push _ => ("Push", "Push the number")
  | .dup => ("Dup", "Duplicate the top value")
  | .copy _ => ("Copy", "Copy the nth value onto the top")
  | .swap => ("Swap", "Swap the top two values")
  | .discard => ("Discard", "Pop and discard")
  | .slide _ => ("Slide", "Drop n values under the top")
  | .add => ("Add", "Pop b, a; push a op b")
  | .sub => ("Sub", "Pop b, a; push a op b")
  | .mul => ("Mul", "Pop b, a; push a op b")
  | .div => ("Div", "Floored; division by zero faults")
  | .mod => ("Mod", "Floored; division by zero faults")
  | .store => ("Store", "Pop value, address; store in the heap")
  | .retrieve => ("Retrieve", "Pop address; push the heap value, 0 if unset")
  | .mark _ => ("Mark", "Define a label here")
  | .call _ => ("Call", "Call a label")
  | .jump _ => ("Jump", "Jump to a label")
  | .jumpZero _ => ("JumpZero", "Pop; jump if zero")
  | .jumpNegative _ => ("JumpNegative", "Pop; jump if negative")
  | .ret => ("Return", "Return from a call; with no caller, end the program")
  | .exit => ("Exit", "End the program")
  | .outChar => ("OutChar", "Pop and write as a character")
  | .outNum => ("OutNum", "Pop and write as a number")
  | .readChar => ("ReadChar", "Pop address; store a character there, -1 at end of input")
  | .readNum =>
    ("ReadNum", "Pop address; store a number read from the next line, -1 at end of input")

/-- An instruction with any argument, and the word for the argument. -/
def whitespaceSample : Whitespace.Form → Whitespace.Op × String
  | .plain op => (op, "")
  | .number build => (build 0, " <number>")
  | .label build => (build ⟨[]⟩, " <label>")

/-- The instructions of Whitespace whose spellings begin in one of some ways. -/
def whitespaceGroup (name : String) (beginnings : List (List Whitespace.Symbol)) : Group where
  name := name
  entries :=
    (Whitespace.spellings.filter fun spelling => beginnings.any (·.isPrefixOf spelling.symbols)).map
      fun spelling =>
        let (op, argument) := whitespaceSample spelling.form
        let (name, description) := whitespaceEntry op
        let letters := String.ofList (spelling.symbols.map Whitespace.Symbol.letter)
        ⟨name, letters ++ argument, description⟩

def whitespace : Chapter where
  description :=
    "Instructions are spelled in space (S), tab (T) and linefeed (L); everything else is a " ++
      "comment. Numbers are a sign then binary digits ended by L."
  memory := "Integer stack, integer heap, call stack."
  groups := [
    whitespaceGroup "Stack" [[.space]],
    whitespaceGroup "Arithmetic" [[.tab, .space]],
    whitespaceGroup "Heap" [[.tab, .tab]],
    whitespaceGroup "Flow" [[.linefeed]],
    whitespaceGroup "I/O" [[.tab, .linefeed]]]

def pietDescription : Piet.Command → String
  | .push => "Push the size of the block just left"
  | .pop => "Pop and discard"
  | .add | .subtract | .multiply => "Pop b, a; push a op b"
  | .divide | .mod => "Floored; division by zero is ignored"
  | .not => "Push 1 if the popped value is zero, else 0"
  | .greater => "Pop b, a; push 1 if a > b"
  | .pointer => "Pop n; rotate the direction pointer n quarter turns clockwise"
  | .switch => "Pop n; toggle the codel chooser if n is odd"
  | .duplicate => "Duplicate the top value"
  | .roll => "Pop count, depth; roll the top depth values count times"
  | .inNumber => "Read a number; ignored at end of input"
  | .inChar => "Read a character; ignored at end of input"
  | .outNumber => "Pop and write as a number"
  | .outChar => "Pop and write as a character"

/-- The commands of Piet in the order of their table. -/
def pietEntries : List Entry :=
  (List.finRange 6).flatMap fun hue =>
    (List.finRange 3).filterMap fun lightness =>
      ((Piet.Command.table.get hue).get lightness).map fun command =>
        ⟨command.title, s!"hue +{hue.val}, lightness +{lightness.val}", pietDescription command⟩

def piet : Chapter where
  description :=
    "Programs are images. The command is chosen by the hue and lightness change between " ++
      "adjacent color blocks; eight blocked exits in a row end the program."
  memory := "Integer stack; direction pointer and codel chooser."
  groups := [⟨"Color changes", pietEntries⟩]

/-- The chapter on a language. -/
def of : Language → Chapter
  | .brainfuck => brainfuck
  | .befunge => befunge
  | .malbolge => malbolge
  | .whitespace => whitespace
  | .piet => piet

end Chapter

end Esoterica.Reference
