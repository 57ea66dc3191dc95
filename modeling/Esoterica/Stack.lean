import Esoterica.Word
import Esoterica.Error

/-!
The stack of words that the machines share. An empty stack gives zeros; only a full one refuses a
value.
-/

namespace Esoterica

/-- What two operands are combined by: `a` lies beneath `b` on the stack. -/
inductive BinaryOp where
  | add
  | sub
  | mul
  | div
  | mod
  | floorDiv
  | floorMod
  | greater
  | equal
deriving DecidableEq, Repr

namespace BinaryOp

/-- The operations that have no result for a zero on top. -/
def divides : BinaryOp → Bool
  | div | mod | floorDiv | floorMod => true
  | add | sub | mul | greater | equal => false

/-- The result for `a` and `b`. Sums, differences, products and the quotient of the least word by
minus one wrap around. -/
def apply (op : BinaryOp) (a b : Word) : Word :=
  match op with
  | add => a + b
  | sub => a - b
  | mul => a * b
  | div => a / b
  | mod => a % b
  | floorDiv => Word.floorDiv a b
  | floorMod => Word.floorMod a b
  | greater => Word.ofBool (a > b)
  | equal => Word.ofBool (a == b)

end BinaryOp

/-- The values from the top down, and their number. -/
structure Stack where
  values : List Word
  height : Nat
  heightEq : height = values.length
deriving DecidableEq, Repr

namespace Stack

/-- The greatest height. -/
def limit : Nat := 1048576

def empty : Stack :=
  ⟨[], 0, rfl⟩

/-- The stack with these values from the top down. -/
def ofList (values : List Word) : Stack :=
  ⟨values, values.length, rfl⟩

/-- Puts a value on top, unless the stack is full. -/
def push (stack : Stack) (value : Word) : Outcome Stack :=
  if stack.height < limit then
    ⟨⟨value :: stack.values, stack.height + 1, by simp [stack.heightEq]⟩, none⟩
  else ⟨stack, some (.stackOverflow limit)⟩

/-- The top value and the stack without it; an empty stack gives zero. -/
def pop : Stack → Word × Stack
  | ⟨[], _, _⟩ => (0, empty)
  | ⟨value :: rest, height, heightEq⟩ => (value, ⟨rest, height - 1, by simp [heightEq]⟩)

/-- The value at a depth; the top is at depth zero. -/
def peekAt? (stack : Stack) (depth : Nat) : Option Word :=
  stack.values[depth]?

/-- The top value, zero for an empty stack. -/
def peek (stack : Stack) : Word :=
  (stack.peekAt? 0).getD 0

/-- The topmost values, at most this many. -/
def top (stack : Stack) (count : Nat) : List Word :=
  stack.values.take count

/-- Puts the top value on top once more. -/
def dup (stack : Stack) : Outcome Stack :=
  stack.push stack.peek

/-- Puts the value at a depth on top, zero where there is none. -/
def copy (stack : Stack) (depth : Nat) : Outcome Stack :=
  stack.push ((stack.peekAt? depth).getD 0)

/-- Exchanges the top two values. -/
def swap (stack : Stack) : Outcome Stack :=
  let (b, rest) := stack.pop
  let (a, rest) := rest.pop
  (rest.push b).andThen (·.push a)

/-- Drops the top value. -/
def discard (stack : Stack) : Stack :=
  stack.pop.2

/-- Drops values beneath the top one, which stays. -/
def slide (stack : Stack) (count : Nat) : Stack :=
  match stack.values with
  | [] => stack
  | value :: rest => ofList (value :: rest.drop count)

/-- Turns the topmost `depth` values by `count` places: once moves the top value beneath the others.
There must be as many values, and at least one. -/
def roll? (stack : Stack) (depth count : Word) : Option Stack :=
  if 0 < depth.toInt ∧ depth.toInt ≤ stack.height then
    let size := depth.toInt.toNat
    let shift := (count.toInt % depth.toInt).toNat
    let turned := stack.values.take size
    some (ofList (turned.drop shift ++ turned.take shift ++ stack.values.drop size))
  else none

/-- Replaces the top two values by their combination. A division by zero fails and takes both
values, or puts them back where it is to be ignored. -/
def binary (stack : Stack) (op : BinaryOp) (ignoreZero : Bool) : Outcome Stack :=
  let (b, rest) := stack.pop
  let (a, rest) := rest.pop
  if op.divides ∧ b = 0 then
    if ignoreZero then (rest.push a).andThen (·.push b)
    else ⟨rest, some .divisionByZero⟩
  else rest.push (op.apply a b)

/-- Replaces the top value by one if it is zero and by zero if it is not. -/
def negate (stack : Stack) : Outcome Stack :=
  let (value, rest) := stack.pop
  rest.push (Word.ofBool (value == 0))

end Stack

end Esoterica
