import Esoterica.Options
import Esoterica.Plane.Direction
import Esoterica.Stack
import Esoterica.Text

/-!
The instructions of Befunge. The table of Befunge-93 is always in force; Befunge-98 adds a second
one, part of which this machine knows only by name.
-/

namespace Esoterica.Befunge

/-- What the machine does not provide. -/
inductive Feature where
  | threeDimensions
  | concurrency
  | files
  | systemExecute
  | systemInfo
  | iterate
  | stackStack
  | fingerprints
deriving DecidableEq, Repr

def Feature.name : Feature → String
  | threeDimensions => "3D movement"
  | concurrency => "concurrency"
  | files => "file I/O"
  | systemExecute => "system execute"
  | systemInfo => "system info"
  | iterate => "iterate"
  | stackStack => "stack stack"
  | fingerprints => "fingerprints"

inductive Op where
  | push (value : Word)
  /-- A cell that string mode takes as text. -/
  | pushChar (value : Word)
  | add
  | sub
  | mul
  | div
  | mod
  | not
  | greater
  | go (direction : Direction)
  | random
  | horizontalIf
  | verticalIf
  | toggleString
  | dup
  | swap
  | discard
  | outputNumber
  | outputChar
  | bridge
  | put
  | get
  | inputNumber
  | inputChar
  | halt
  | nop
  | clearStack
  | reflect
  | turnLeft
  | turnRight
  | compare
  | jumpForward
  | fetch
  | store
  | skipComment
  | setDelta
  | quit
  | unsupported (instruction : Char) (feature : Feature)
deriving DecidableEq, Repr

namespace Op

/-- The table of Befunge-93. -/
def primary? (c : Char) : Option Op :=
  if c.isDigit then some (push (Word.ofChar c - Word.ofChar '0'))
  else match c with
    | '+' => some add
    | '-' => some sub
    | '*' => some mul
    | '/' => some div
    | '%' => some mod
    | '!' => some not
    | '\x60' => some greater
    | '>' => some (go .right)
    | '<' => some (go .left)
    | '^' => some (go .up)
    | 'v' => some (go .down)
    | '?' => some random
    | '_' => some horizontalIf
    | '|' => some verticalIf
    | '"' => some toggleString
    | ':' => some dup
    | '\\' => some swap
    | '$' => some discard
    | '.' => some outputNumber
    | ',' => some outputChar
    | '#' => some bridge
    | 'p' => some put
    | 'g' => some get
    | '&' => some inputNumber
    | '~' => some inputChar
    | '@' => some halt
    | ' ' => some nop
    | _ => none

/-- What Befunge-98 adds. -/
def secondary? (c : Char) : Option Op :=
  if 'a' ≤ c ∧ c ≤ 'f' then some (push (Word.ofChar c - Word.ofChar 'a' + 10))
  else match c with
    | 'n' => some clearStack
    | 'r' => some reflect
    | '[' => some turnLeft
    | ']' => some turnRight
    | 'w' => some compare
    | 'j' => some jumpForward
    | '\x27' => some fetch
    | 's' => some store
    | ';' => some skipComment
    | 'x' => some setDelta
    | 'q' => some quit
    | 'z' => some nop
    | 'h' | 'l' | 'm' => some (unsupported c .threeDimensions)
    | 't' => some (unsupported c .concurrency)
    | 'i' | 'o' => some (unsupported c .files)
    | '=' => some (unsupported c .systemExecute)
    | 'y' => some (unsupported c .systemInfo)
    | 'k' => some (unsupported c .iterate)
    | '\x7b' | '\x7d' | 'u' => some (unsupported c .stackStack)
    | '(' | ')' => some (unsupported c .fingerprints)
    | _ => none

/-- What a cell means that stands in no table: nothing, or a turn back. -/
def unknown : Dialect → Op
  | .befunge93 => nop
  | .befunge98 => reflect

/-- The instruction in a cell outside string mode. -/
def decode (dialect : Dialect) (cell : Word) : Op :=
  match Text.scalar? cell.toInt with
  | none => unknown dialect
  | some c =>
    match primary? c with
    | some op => op
    | none =>
      match dialect with
      | .befunge93 => unknown dialect
      | .befunge98 => (secondary? c).getD (unknown dialect)

/-- The instruction in a log. -/
def name : Op → String
  | push value => s!"Push({value.text})"
  | pushChar value => s!"PushChar({value.text})"
  | add => "Add"
  | sub => "Sub"
  | mul => "Mul"
  | div => "Div"
  | mod => "Mod"
  | not => "Not"
  | greater => "Greater"
  | go .right => "Go(Right)"
  | go .down => "Go(Down)"
  | go .left => "Go(Left)"
  | go .up => "Go(Up)"
  | random => "Random"
  | horizontalIf => "HorizontalIf"
  | verticalIf => "VerticalIf"
  | toggleString => "ToggleString"
  | dup => "Dup"
  | swap => "Swap"
  | discard => "Discard"
  | outputNumber => "OutputNumber"
  | outputChar => "OutputChar"
  | bridge => "Bridge"
  | put => "Put"
  | get => "Get"
  | inputNumber => "InputNumber"
  | inputChar => "InputChar"
  | halt => "Halt"
  | nop => "Nop"
  | clearStack => "ClearStack"
  | reflect => "Reflect"
  | turnLeft => "TurnLeft"
  | turnRight => "TurnRight"
  | compare => "Compare"
  | jumpForward => "JumpForward"
  | fetch => "Fetch"
  | store => "Store"
  | skipComment => "SkipComment"
  | setDelta => "SetDelta"
  | quit => "Quit"
  | unsupported c feature => s!"Unsupported('{c}', \"{feature.name}\")"

end Op

end Esoterica.Befunge
