import Esoterica.Befunge.Dice
import Esoterica.Befunge.Field
import Esoterica.Befunge.Op
import Esoterica.Machine

/-!
The machine for Befunge: a pointer that walks over the playfield and carries out the cells it meets.
-/

namespace Esoterica.Befunge

structure Registers where
  field : Field
  pointer : Pointer := {}
  stringMode : Bool := false
  dice : Dice
deriving DecidableEq, Repr

/-- The code of a quote, which starts and ends string mode. -/
def quote : Word := 34

/-- The code of a semicolon, which starts and ends a comment. -/
def semicolon : Word := 59

def runFault (error : Error) : Error :=
  error.during "grid::execute"

/-- Changes the pointer. -/
def steer (state : State Registers) (change : Pointer → Pointer) : State Registers :=
  state.update fun registers => { registers with pointer := change registers.pointer }

/-- Moves the pointer one cell. A pointer that leaves the field ends the program. -/
def move (wrap : Bool) (state : State Registers) : State Registers :=
  let pointer := state.registers.pointer
  match state.registers.field.step? wrap pointer with
  | some next => steer state fun _ => next
  | none => state.halt (.leftGrid pointer)

/-- Moves the pointer several cells, unless the program ends before. -/
def moveTimes (wrap : Bool) (state : State Registers) : Nat → State Registers
  | 0 => state
  | count + 1 =>
    let state := move wrap state
    if state.done then state else moveTimes wrap state count

/-- Moves the pointer to the next semicolon, at most this many cells. -/
def moveToSemicolon (wrap : Bool) (state : State Registers) : Nat → State Registers
  | 0 => state
  | count + 1 =>
    let state := move wrap state
    if state.done || state.registers.field.look? wrap state.registers.pointer == some semicolon
    then state
    else moveToSemicolon wrap state count

/-- Moves the pointer some cells ahead, or back for a negative number. More cells than the box around
the rows holds are not gone through; in every run of a source of less than `2 ^ 32` characters these are
fewer than `2 ^ 64`. -/
def jump (wrap : Bool) (state : State Registers) (count : Word) : State Registers :=
  let field := state.registers.field
  let moves := min count.toInt.natAbs (field.height * max field.widest 1)
  if count < 0 then steer (moveTimes wrap (steer state .reflect) moves) .reflect
  else moveTimes wrap state moves

/-- Writes a cell of the field. -/
def put (state : State Registers) (x y value : Word) : Outcome (State Registers) :=
  match state.registers.field.put? x y value with
  | some field => ⟨state.update fun registers => { registers with field }, none⟩
  | none =>
    let error := runFault (.pointerOutOfBounds "put" x.toInt)
    ⟨state, some ((error.noting "x" x.text).noting "y" y.text)⟩

/-- Combines the top two values of the stack. -/
def binary (state : State Registers) (op : BinaryOp) : Outcome (State Registers) :=
  (state.onStack (·.binary op false)).mapFault runFault

/-- The fault of an instruction that the machine knows only by name. -/
def refuse (state : State Registers) (instruction : Char) (feature : Feature) : Error :=
  let pointer := state.registers.pointer
  (((runFault (.unsupported feature.name)).noting "instruction" instruction.toString).noting
    "x" pointer.x.text).noting "y" pointer.y.text

/-- The instruction under the pointer. -/
def decode (options : Options) (state : State Registers) : Option Op :=
  let registers := state.registers
  (registers.field.look? options.wrap registers.pointer).map fun cell =>
    if registers.stringMode then
      if cell = quote then .toggleString else .pushChar cell
    else Op.decode options.dialect cell

def execute (options : Options) (op : Op) (state : State Registers) :
    Outcome (State Registers) :=
  let wrap := options.wrap
  match op with
  | .push value | .pushChar value => state.push value
  | .add => binary state .add
  | .sub => binary state .sub
  | .mul => binary state .mul
  | .div => binary state .div
  | .mod => binary state .mod
  | .greater => binary state .greater
  | .not => state.onStack Stack.negate
  | .go direction => ⟨steer state (·.head direction), none⟩
  | .random =>
    let (direction, dice) := state.registers.dice.roll
    ⟨steer (state.update fun registers => { registers with dice }) (·.head direction), none⟩
  | .horizontalIf =>
    let (value, state) := state.pop
    ⟨steer state (·.head (if value = 0 then .right else .left)), none⟩
  | .verticalIf =>
    let (value, state) := state.pop
    ⟨steer state (·.head (if value = 0 then .down else .up)), none⟩
  | .toggleString =>
    ⟨state.update fun registers => { registers with stringMode := !registers.stringMode }, none⟩
  | .dup => state.onStack Stack.dup
  | .swap => state.onStack Stack.swap
  | .discard => ⟨state.pop.2, none⟩
  | .outputNumber =>
    let (value, state) := state.pop
    ⟨state.writeText (value.text ++ " "), none⟩
  | .outputChar =>
    let (value, state) := state.pop
    ⟨state.writeCode value, none⟩
  | .bridge => ⟨move wrap state, none⟩
  | .put =>
    let (y, state) := state.pop
    let (x, state) := state.pop
    let (value, state) := state.pop
    put state x y value
  | .get =>
    let (y, state) := state.pop
    let (x, state) := state.pop
    state.push (state.registers.field.get x y)
  | .inputNumber =>
    let (value, state) := state.readNumber
    state.push (value.getD (-1))
  | .inputChar =>
    let (c, state) := state.readChar
    state.push ((c.map Word.ofChar).getD (-1))
  | .halt | .quit => ⟨state.halt .stopped, none⟩
  | .nop => ⟨state, none⟩
  | .clearStack => ⟨{ state with stack := .empty }, none⟩
  | .reflect => ⟨steer state .reflect, none⟩
  | .turnLeft => ⟨steer state .turnLeft, none⟩
  | .turnRight => ⟨steer state .turnRight, none⟩
  | .compare =>
    let (b, state) := state.pop
    let (a, state) := state.pop
    if a < b then ⟨steer state .turnLeft, none⟩
    else if b < a then ⟨steer state .turnRight, none⟩
    else ⟨state, none⟩
  | .jumpForward =>
    let (count, state) := state.pop
    ⟨jump wrap state count, none⟩
  | .fetch =>
    let state := move wrap state
    if state.done then ⟨state, none⟩
    else
      let registers := state.registers
      state.push ((registers.field.look? wrap registers.pointer).getD Field.space)
  | .store =>
    let (value, state) := state.pop
    let state := move wrap state
    if state.done then ⟨state, none⟩
    else put state state.registers.pointer.x state.registers.pointer.y value
  | .skipComment =>
    ⟨moveToSemicolon wrap state (state.registers.field.area + 1), none⟩
  | .setDelta =>
    let (dy, state) := state.pop
    let (dx, state) := state.pop
    ⟨steer state fun pointer => { pointer with dx, dy }, none⟩
  | .unsupported instruction feature => ⟨state, some (refuse state instruction feature)⟩

/-- The field of a source text, under options with which it can run. -/
def load (options : Options) (source : String) : Except Error Field := do
  options.validate
  return .ofSource source

/-- The machine with a field in it and with dice, which need not be those of a seed. -/
def machine (options : Options) (field : Field) (dice : Dice := .ofSeed options.seed) :
    Machine Op Registers where
  language := .befunge
  options := options
  start := { field, dice }
  decode := decode options
  execute := execute options
  advance _ state := move options.wrap state
  describe := Op.name
  registers state :=
    let pointer := state.registers.pointer
    [("dialect", .text options.dialect.name),
      ("pointer", .record [
        ("dx", .int pointer.dx.toInt),
        ("dy", .int pointer.dy.toInt),
        ("x", .int pointer.x.toInt),
        ("y", .int pointer.y.toInt)]),
      ("string_mode", .bool state.registers.stringMode)]
  memory state :=
    let row := (state.registers.field.rows[state.registers.pointer.y.toInt.toNat]?).getD #[]
    row.toList.mapIdx fun x value => (x, value.toInt)

/-- What a log says about a program that has been loaded. -/
def loadNote (options : Options) (field : Field) : Note :=
  ⟨.debug, "esovm_vm::grid",
    s!"grid program: {field.height} rows, widest {field.widest}, dialect {options.dialect.name}"⟩

end Esoterica.Befunge
