import Esoterica.Machine
import Esoterica.Piet.Block
import Esoterica.Piet.Command
import Esoterica.Piet.Trace

/-!
The machine for Piet. Each cycle is an attempt to move: into another colored block, which carries out
a command; into, over or out of white, which does nothing; or against black or the edge, after which
the pointer turns. Eight failed attempts to leave a block end the program, and so do four on white.
-/

namespace Esoterica.Piet

/-- An attempt to move. -/
inductive Op where
  | step (target : Codel) (command : Option Command) (blockSize : Nat)
  | slide (target : Codel)
  | blocked
deriving DecidableEq, Repr

/-- The attempt in a log. -/
def Op.name : Op → String
  | step target command blockSize =>
    let selected := match command with
      | some command => s!"Some({command.title})"
      | none => "None"
    s!"Step \x7b to: {target.text}, command: {selected}, block_size: {blockSize} \x7d"
  | slide target => s!"Slide \x7b to: {target.text} \x7d"
  | blocked => "Blocked"

/-- What the pointer is doing. -/
inductive Phase where
  /-- Looking for the exit of a block. -/
  | seekingExit
  /-- Looking again after some failed attempts. -/
  | blockedRetry (attempts : Nat)
  /-- Sliding over white, with some walls met. -/
  | traversingWhite (walls : Nat)
deriving DecidableEq, Repr

def Phase.toJson : Phase → Json
  | seekingExit => .text "seeking_exit"
  | blockedRetry attempts => .record [("blocked_retry", .nat attempts)]
  | traversingWhite walls => .record [("traversing_white", .nat walls)]

structure Registers where
  position : Codel
  dp : Direction
  cc : Chooser
  phase : Phase
  /-- Where the slide over white has been, and in which directions. -/
  whiteSeen : List (Codel × Direction)
  /-- The visited codels, if they are recorded. -/
  path : Array Codel
deriving DecidableEq, Repr

/-- The attempts to leave a block. -/
def retryLimit : Nat := 8

/-- The walls that a slide over white may meet. -/
def wallLimit : Nat := 4

/-- Carries out a command, given the size of the block just left. A division or a roll that makes no
sense puts its operands back. -/
def apply (command : Command) (blockSize : Word) (state : State Registers) :
    Outcome (State Registers) :=
  match command with
  | .push => state.push blockSize
  | .pop => ⟨state.pop.2, none⟩
  | .add => state.onStack (·.binary .add true)
  | .subtract => state.onStack (·.binary .sub true)
  | .multiply => state.onStack (·.binary .mul true)
  | .divide => state.onStack (·.binary .floorDiv true)
  | .mod => state.onStack (·.binary .floorMod true)
  | .not => state.onStack Stack.negate
  | .greater => state.onStack (·.binary .greater true)
  | .pointer =>
    let (turns, state) := state.pop
    ⟨state.update fun registers => { registers with dp := registers.dp.rotated turns.toInt }, none⟩
  | .switch =>
    let (turns, state) := state.pop
    if turns.toInt % 2 = 1 then
      ⟨state.update fun registers => { registers with cc := registers.cc.toggled }, none⟩
    else ⟨state, none⟩
  | .duplicate => state.onStack Stack.dup
  | .roll =>
    let (count, state) := state.pop
    let (depth, state) := state.pop
    match state.stack.roll? depth count with
    | some stack => ⟨{ state with stack }, none⟩
    | none => (state.push depth).andThen (·.push count)
  | .inNumber =>
    match state.readNumber with
    | (some value, state) => state.push value
    | (none, state) => ⟨state, none⟩
  | .inChar =>
    match state.readChar with
    | (some c, state) => state.push (Word.ofChar c)
    | (none, state) => ⟨state, none⟩
  | .outNumber =>
    let (value, state) := state.pop
    ⟨state.writeText value.text, none⟩
  | .outChar =>
    let (value, state) := state.pop
    ⟨state.writeCode value, none⟩

/-- The attempt to move that the pointer makes next. On black and outside the program there is
none. -/
def decode (codels : Codels) (state : State Registers) : Option Op :=
  let registers := state.registers
  match codels.get? registers.position with
  | none | some .black => none
  | some .white =>
    let target := registers.position.next registers.dp
    some (if codels.isOpen target then .slide target else .blocked)
  | some color =>
    (Block.around? codels registers.position).map fun block =>
      let target := (block.exit registers.dp registers.cc).next registers.dp
      match codels.get? target with
      | none | some .black => .blocked
      | some .white => .slide target
      | some next => .step target (Command.between color next) block.size

/-- Turns the pointer at a wall beside white, or ends the program. -/
def meetWall (state : State Registers) (walls : Nat) : State Registers :=
  if wallLimit ≤ walls then
    state.halt (.walledIn state.registers.position.x state.registers.position.y)
  else
    state.update fun registers =>
      { registers with
        cc := registers.cc.toggled
        dp := registers.dp.clockwise
        phase := .traversingWhite walls }

/-- Turns the chooser or the pointer at a blocked exit, or ends the program. -/
def retry (state : State Registers) (attempts : Nat) : State Registers :=
  if retryLimit ≤ attempts then
    state.halt (.noExit state.registers.position.x state.registers.position.y)
  else
    state.update fun registers =>
      if attempts % 2 = 1 then
        { registers with cc := registers.cc.toggled, phase := .blockedRetry attempts }
      else { registers with dp := registers.dp.clockwise, phase := .blockedRetry attempts }

def execute (op : Op) (state : State Registers) : Outcome (State Registers) :=
  match op with
  | .step _ (some command) blockSize => apply command (Int64.ofNat blockSize) state
  | .step _ none _ | .slide _ => ⟨state, none⟩
  | .blocked =>
    match state.registers.phase with
    | .traversingWhite walls => ⟨meetWall state (walls + 1), none⟩
    | .seekingExit => ⟨retry state 1, none⟩
    | .blockedRetry attempts => ⟨retry state (attempts + 1), none⟩

/-- The phase after a move onto white. -/
def Phase.onWhite : Phase → Phase
  | traversingWhite walls => traversingWhite walls
  | _ => traversingWhite 0

/-- Moves the pointer to a codel. A slide that comes back to a codel in the same direction ends the
program. -/
def enter (options : Options) (codels : Codels) (target : Codel) (state : State Registers) :
    State Registers :=
  let moved := state.update fun registers =>
    { registers with
      position := target
      path := if options.trace then registers.path.push target else registers.path }
  if codels.get? target = some .white then
    let visit := (target, moved.registers.dp)
    let sliding := moved.update fun registers =>
      { registers with phase := registers.phase.onWhite }
    if sliding.registers.whiteSeen.contains visit then
      sliding.halt (.revisited target.x target.y sliding.registers.dp)
    else
      sliding.update fun registers => { registers with whiteSeen := visit :: registers.whiteSeen }
  else
    moved.update fun registers => { registers with phase := .seekingExit, whiteSeen := [] }

def advance (options : Options) (codels : Codels) (op : Op) (state : State Registers) :
    State Registers :=
  match op with
  | .step target _ _ | .slide target => enter options codels target state
  | .blocked => state

/-- The registers before the first cycle. The pointer starts at the top left. -/
def start (options : Options) (codels : Codels) : Registers where
  position := ⟨0, 0⟩
  dp := .right
  cc := .left
  phase := if codels.get? ⟨0, 0⟩ = some .white then .traversingWhite 0 else .seekingExit
  whiteSeen := []
  path := if options.trace then #[⟨0, 0⟩] else #[]

/-- The path as a picture, if it is recorded and short enough. -/
def picture (options : Options) (codels : Codels) (path : Array Codel) :
    Option Image × Option Note :=
  if !options.trace then (none, none)
  else if traceLimit < path.size then
    (none, some ⟨.debug, "esovm_vm::geometric",
      s!"trace of {path.size} steps is too long to render"⟩)
  else (some (renderTrace codels path.toList), none)

/-- The program, under options with which it can run. -/
def load (options : Options) (codels : Codels) : Except Error Codels := do
  options.validate
  return codels

def machine (options : Options) (codels : Codels) : Machine Op Registers where
  language := .piet
  options := options
  start := start options codels
  decode := decode codels
  execute := execute
  advance := advance options codels
  describe := Op.name
  registers state :=
    let registers := state.registers
    [("cc", .text registers.cc.name),
      ("color", .optional Color.toJson (codels.get? registers.position)),
      ("dp", .text registers.dp.name),
      ("phase", registers.phase.toJson),
      ("position", .array [.int registers.position.x, .int registers.position.y])]
  memory _ := []
  picture state := picture options codels state.registers.path

/-- What a log says about a program that has been loaded. -/
def loadNote (codels : Codels) : Note :=
  ⟨.debug, "esovm_vm::geometric",
    s!"geometric program: {codels.width}x{codels.height} codels"⟩

/-- What a log says about an image that does not divide into codels. -/
def sizeNote? (options : Options) (image : Image) : Option Note :=
  let size := options.codelSize
  if image.width % size = 0 ∧ image.height % size = 0 then none
  else
    some ⟨.warn, "esovm_vm::geometric",
      s!"image {image.width}x{image.height} is not a multiple of codel size {size}"⟩

end Esoterica.Piet
