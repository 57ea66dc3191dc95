import Esoterica.Piet.Machine
import Esoterica.Proofs.Stack.Height

/-!
Commands that are ignored. A division by zero, or a roll of a depth that the stack does not have, takes
its operands from the stack and puts them back. Operands that a short stack does not have are read as
zeros and put back as zeros, so that only a stack of two values or more stays as it was.
-/

namespace Esoterica

theorem State.push_push {Registers : Type} (state : State Registers) (lower upper : Word) :
    (state.push lower).andThen (·.push upper) =
      state.onStack fun stack => (stack.push lower).andThen (·.push upper) := by
  unfold State.push State.onStack
  apply Outcome.within_andThen
  intro stack
  rfl

namespace Piet

/-- A roll of this depth makes no sense: it is not positive, or there are not as many values beneath the
operands. -/
def Unrollable (stack : Stack) (depth : Word) : Prop :=
  depth.toInt ≤ 0 ∨ ((stack.height - 2 : Nat) : Int) < depth.toInt

/-- The command is a division by zero, or a roll that makes no sense. Missing operands are zeros. -/
def Ignored (command : Command) (stack : Stack) : Prop :=
  (command = .divide ∨ command = .mod) ∧ stack.reading 0 = 0 ∨
    command = .roll ∧ Unrollable stack (stack.reading 1)

instance (stack : Stack) (depth : Word) : Decidable (Unrollable stack depth) :=
  inferInstanceAs (Decidable (_ ∨ _))

instance (command : Command) (stack : Stack) : Decidable (Ignored command stack) :=
  inferInstanceAs (Decidable (_ ∨ _))

variable {stack : Stack} {state : State Registers}

theorem binary_of_zero (op : BinaryOp) (divides : op.divides = true) (zero : stack.reading 0 = 0)
    (fits : stack.height ≤ Stack.limit) : stack.binary op true = ⟨stack.filledTo 2, none⟩ := by
  have zeroPopped : stack.pop.1 = 0 := stack.pop_fst.trans zero
  rw [← Stack.restore_two fits]
  simp only [Stack.binary, divides, zeroPopped, and_self, if_true]

theorem roll?_of_unrollable (unrollable : Unrollable stack (stack.reading 1)) (count : Word) :
    stack.pop.2.pop.2.roll? stack.pop.2.pop.1 count = none := by
  have depth : stack.pop.2.pop.1 = stack.reading 1 := by
    rw [Stack.pop_fst, Stack.reading_pop]
  rw [Stack.roll?, depth, Stack.height_pop_pop, if_neg]
  unfold Unrollable at unrollable
  omega

/-- An ignored command fills the stack to the two operands that it takes and changes nothing else. -/
theorem apply_of_ignored {command : Command} (ignored : Ignored command state.stack)
    (fits : state.stack.height ≤ Stack.limit) (blockSize : Word) :
    apply command blockSize state = ⟨{ state with stack := state.stack.filledTo 2 }, none⟩ := by
  let embed (stack : Stack) : State Registers := { state with stack }
  rcases ignored with ⟨rfl | rfl, zero⟩ | ⟨rfl, unrollable⟩
  · exact congrArg (·.within embed) (binary_of_zero .floorDiv rfl zero fits)
  · exact congrArg (·.within embed) (binary_of_zero .floorMod rfl zero fits)
  · simp only [apply, State.pop, roll?_of_unrollable unrollable, State.push_push]
    exact congrArg (·.within embed) (Stack.restore_two fits)

/-- A command that is ignored does not fail. It leaves the state as it was if the stack has two values
or more; a shorter stack is one of two values afterwards, its own above zeros. -/
theorem ignored_commands_fill_stack (command : Command) (blockSize : Word) (state : State Registers)
    (ignored : Ignored command state.stack) (fits : state.stack.height ≤ Stack.limit) :
    let outcome := apply command blockSize state
    let zeros := List.replicate (2 - state.stack.height) 0
    outcome.fault = none ∧ outcome.state.stack.values = state.stack.values ++ zeros ∧
      outcome.state = { state with stack := outcome.state.stack } ∧
      (outcome.state = state ↔ 2 ≤ state.stack.height) := by
  rw [apply_of_ignored ignored fits]
  refine ⟨rfl, rfl, rfl, ?_⟩
  rw [← Stack.filledTo_eq_self_iff]
  constructor
  · intro same
    exact congrArg State.stack same
  · intro same
    simp only [same]

/-- The pointer at the top left, with these values on the stack. -/
def standing (values : List Word) : State Registers where
  registers := ⟨⟨0, 0⟩, .right, .left, .seekingExit, [], #[]⟩
  stack := .ofList values

/-- A division by zero leaves two values as they are, and a roll puts a zero beneath a single one. -/
theorem ignored_commands_fill_single_value :
    (apply .divide 1 (standing [0, 7])).state = standing [0, 7] ∧
      (apply .roll 1 (standing [7])).fault = none ∧
      (apply .roll 1 (standing [7])).state.stack.values = [7, 0] := by
  have divided := ignored_commands_fill_stack .divide 1 (standing [0, 7]) (by decide) (by decide)
  have rolled := ignored_commands_fill_stack .roll 1 (standing [7]) (by decide) (by decide)
  exact ⟨divided.2.2.2.2 (by decide), rolled.1, rolled.2.1⟩

/-- Not every command that is ignored keeps the stack: there are two zeros on an empty one after a
division. -/
theorem not_every_ignored_command_keeps_stack :
    ¬ ∀ (command : Command) (blockSize : Word) (state : State Registers),
      Ignored command state.stack → state.stack.height ≤ Stack.limit →
        (apply command blockSize state).fault = none ∧
          (apply command blockSize state).state.stack = state.stack := by
  intro keeps
  have kept := (keeps .divide 1 (standing []) (by decide) (by decide)).2
  have height : (apply .divide 1 (standing [])).state.stack.height = 2 := by decide
  rw [kept] at height
  exact absurd height (by decide)

end Piet

end Esoterica
