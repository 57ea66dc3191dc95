import Esoterica.Befunge.Machine
import Esoterica.Proofs.Machine.Underflow
import Esoterica.Whitespace.Machine

/-!
Programs over zeros. No instruction of a Befunge or Whitespace program tells a missing value of the stack
from a zero, so that zeros beneath the stack change nothing in a run but its overflows.
-/

namespace Esoterica

namespace Befunge

section Relations

variable {first second : State Registers} (same : first.SameOverZeros second)

include same

theorem steer_same (change : Pointer → Pointer) :
    (steer first change).SameOverZeros (steer second change) :=
  same.update _

theorem move_same (wrap : Bool) : (move wrap first).SameOverZeros (move wrap second) := by
  simp only [move, same.registers]
  split
  · exact steer_same same _
  · exact same.halt _

theorem moveTimes_same (wrap : Bool) (count : Nat) :
    (moveTimes wrap first count).SameOverZeros (moveTimes wrap second count) := by
  induction count generalizing first second with
  | zero => exact same
  | succ count inductionHypothesis =>
      have moved := move_same same wrap
      simp only [moveTimes, moved.done_eq]
      split
      · exact moved
      · exact inductionHypothesis moved

theorem moveToSemicolon_same (wrap : Bool) (count : Nat) :
    (moveToSemicolon wrap first count).SameOverZeros (moveToSemicolon wrap second count) := by
  induction count generalizing first second with
  | zero => exact same
  | succ count inductionHypothesis =>
      have moved := move_same same wrap
      simp only [moveToSemicolon, moved.done_eq, moved.registers]
      split
      · exact moved
      · exact inductionHypothesis moved

theorem jump_same (wrap : Bool) (count : Word) :
    (jump wrap first count).SameOverZeros (jump wrap second count) := by
  simp only [jump, same.registers]
  split
  · exact steer_same (moveTimes_same (steer_same same _) wrap _) _
  · exact moveTimes_same same wrap _

theorem put_agree (x y value : Word) :
    (put first x y value).Agree State.SameOverZeros (put second x y value) := by
  simp only [put, same.registers]
  split
  · exact .of_related (same.update _) none
  · exact .of_related same _

theorem binary_agree (op : BinaryOp) :
    (binary first op).Agree State.SameOverZeros (binary second op) :=
  (same.onStack (same.stack.binary op false)).mapFault fun _ => rfl

theorem decode_eq_of_same (options : Options) : decode options first = decode options second := by
  rw [decode, decode, same.registers]

/-- An instruction reads zeros where the stack holds nothing. -/
theorem execute_agree (options : Options) (op : Op) :
    (execute options op first).Agree State.SameOverZeros (execute options op second) := by
  cases op with
  | push value | pushChar value => exact same.push value
  | add | sub | mul | div | mod | greater => exact binary_agree same _
  | not => exact same.onStack same.stack.negate
  | dup => exact same.onStack same.stack.dup
  | swap => exact same.onStack same.stack.swap
  | go | reflect | turnLeft | turnRight => exact .of_related (steer_same same _) none
  | toggleString => exact .of_related (same.update _) none
  | discard => exact .of_related same.pop none
  | bridge => exact .of_related (move_same same _) none
  | halt | quit => exact .of_related (same.halt _) none
  | nop => exact .of_related same none
  | clearStack => exact .of_related (same.withStack (.refl _)) none
  | random =>
      simp only [execute, same.registers]
      exact .of_related (steer_same (same.update _) _) none
  | horizontalIf | verticalIf =>
      simp only [execute, same.pop_eq]
      exact .of_related (steer_same same.pop _) none
  | outputNumber =>
      simp only [execute, same.pop_eq]
      exact .of_related (same.pop.writeText _) none
  | outputChar =>
      simp only [execute, same.pop_eq]
      exact .of_related (same.pop.writeCode _) none
  | put =>
      simp only [execute, same.pop_eq, same.pop.pop_eq, same.pop.pop.pop_eq]
      exact put_agree same.pop.pop.pop _ _ _
  | get =>
      simp only [execute, same.pop_eq, same.pop.pop_eq, same.pop.pop.registers]
      exact same.pop.pop.push _
  | inputNumber =>
      simp only [execute, same.readNumber_eq]
      exact same.readNumber.push _
  | inputChar =>
      simp only [execute, same.readChar_eq]
      exact same.readChar.push _
  | compare =>
      simp only [execute, same.pop_eq, same.pop.pop_eq]
      split
      · exact .of_related (steer_same same.pop.pop _) none
      · split
        · exact .of_related (steer_same same.pop.pop _) none
        · exact .of_related same.pop.pop none
  | jumpForward =>
      simp only [execute, same.pop_eq]
      exact .of_related (jump_same same.pop _ _) none
  | fetch =>
      have moved := move_same same options.wrap
      simp only [execute, moved.done_eq, moved.registers]
      split
      · exact .of_related moved none
      · exact moved.push _
  | store =>
      have moved := move_same same.pop options.wrap
      simp only [execute, same.pop_eq, moved.done_eq, moved.registers]
      split
      · exact .of_related moved none
      · exact put_agree moved _ _ _
  | skipComment =>
      simp only [execute, same.registers]
      exact .of_related (moveToSemicolon_same same _ _) none
  | setDelta =>
      simp only [execute, same.pop_eq, same.pop.pop_eq]
      exact .of_related (steer_same same.pop.pop _) none
  | unsupported instruction feature =>
      simp only [execute, refuse, same.registers]
      exact .of_related same _

end Relations

theorem machine_ignoresZeros (options : Options) (field : Field) :
    (machine options field).IgnoresZeros :=
  Machine.ignoresZeros_of_execute (fun same => decode_eq_of_same same options)
    (fun op _ _ same => execute_agree same options op) fun _ _ _ same => move_same same options.wrap

end Befunge

namespace Whitespace

section Relations

variable {first second : State Registers} (same : first.SameOverZeros second)

include same

theorem jump_agree (program : Program) (label : Label) :
    (jump program first label).Agree State.SameOverZeros (jump program second label) := by
  simp only [jump]
  split
  · exact .of_related (same.update _) none
  · exact .of_related same _

theorem call_agree (program : Program) (label : Label) :
    (call program first label).Agree State.SameOverZeros (call program second label) := by
  simp only [call, same.registers]
  split
  · exact .of_related same _
  · cases target : program.target? label with
    | none =>
        simp only [jump, target]
        exact .of_related same _
    | some index =>
        simp only [jump, target]
        exact .of_related ((same.update _).update _) none

theorem binary_agree (program : Program) (op : BinaryOp) :
    (binary program first op).Agree State.SameOverZeros (binary program second op) := by
  simp only [binary, same.registers]
  exact (same.onStack (same.stack.binary op false)).mapFault fun _ => rfl

/-- An instruction reads zeros where the stack holds nothing. -/
theorem execute_agree (program : Program) (op : Op) :
    (execute program op first).Agree State.SameOverZeros (execute program op second) := by
  cases op with
  | push value => exact same.push value
  | dup => exact same.onStack same.stack.dup
  | copy depth =>
      simp only [execute]
      split
      · exact .of_related same _
      · exact same.onStack (same.stack.copy _)
  | swap => exact same.onStack same.stack.swap
  | discard => exact .of_related same.pop none
  | slide count => exact .of_related (same.withStack (same.stack.slide _)) none
  | add | sub | mul | div | mod => exact binary_agree same program _
  | store =>
      simp only [execute, same.pop_eq, same.pop.pop_eq]
      exact .of_related (same.pop.pop.update _) none
  | retrieve =>
      simp only [execute, same.pop_eq, same.pop.registers]
      exact same.pop.push _
  | mark => exact .of_related same none
  | call label => exact call_agree same program label
  | jump label => exact jump_agree same program label
  | jumpZero label | jumpNegative label =>
      simp only [execute, same.pop_eq]
      split
      · exact jump_agree same.pop program label
      · exact .of_related same.pop none
  | ret =>
      simp only [execute, same.registers]
      split
      · exact .of_related (same.halt _) none
      · exact .of_related (same.update _) none
  | exit => exact .of_related (same.halt _) none
  | outChar =>
      simp only [execute, same.pop_eq]
      exact .of_related (same.pop.writeCode _) none
  | outNum =>
      simp only [execute, same.pop_eq]
      exact .of_related (same.pop.writeText _) none
  | readChar =>
      simp only [execute, same.pop_eq, same.pop.readChar_eq]
      exact .of_related (same.pop.readChar.update _) none
  | readNum =>
      simp only [execute, same.pop_eq, same.pop.readLine_eq]
      exact .of_related (same.pop.readLine.update _) none

end Relations

theorem machine_ignoresZeros (options : Options) (program : Program) :
    (machine options program).IgnoresZeros :=
  Machine.ignoresZeros_of_execute
    (fun same => congrArg (fun registers => program.ops[registers.ip]?) same.registers)
    (fun op _ _ same => execute_agree same program op) fun _ _ _ same => same.update _

end Whitespace

/-- In Befunge and in Whitespace the stack stands on zeros without end: runs from states that differ in
zeros beneath the stack only are alike until one of them overflows. -/
theorem runs_abreast_over_zeros (options : Options) :
    (∀ (field : Befunge.Field) (first second : State Befunge.Registers),
      first.SameOverZeros second → (Befunge.machine options field).Abreast first second) ∧
    ∀ (program : Whitespace.Program) (first second : State Whitespace.Registers),
      first.SameOverZeros second → (Whitespace.machine options program).Abreast first second :=
  ⟨fun field _ _ same => (Befunge.machine_ignoresZeros options field).abreast same,
    fun program _ _ same => (Whitespace.machine_ignoresZeros options program).abreast same⟩

/-- Programs that add to, exchange, copy and drop values which are not there, once with no values on the
stack and once with three zeros. -/
theorem runs_abreast_over_three_zeros :
    let befunge := Befunge.machine {} (.ofSource "5+:.\\.@")
    let bare : State Befunge.Registers := { registers := befunge.start }
    let raised : State Befunge.Registers :=
      { registers := befunge.start, stack := .ofList [0, 0, 0] }
    let whitespace :=
      Whitespace.machine {} ⟨#[.copy 2, .push 7, .slide 3, .outNum, .exit], #[0, 8, 14, 23, 27], []⟩
    let empty : State Whitespace.Registers := { registers := whitespace.start }
    let filled : State Whitespace.Registers :=
      { registers := whitespace.start, stack := .ofList [0, 0, 0] }
    (bare.SameOverZeros raised ∧ StackFits (befunge.runFor 7 bare).fault ∧
      StackFits (befunge.runFor 7 raised).fault ∧
      (befunge.runFor 7 bare).state.output.text = "5 0 " ∧
      befunge.trail 7 bare = befunge.trail 7 raised ∧
      (befunge.runFor 7 bare).state.SameOverZeros (befunge.runFor 7 raised).state) ∧
    empty.SameOverZeros filled ∧ StackFits (whitespace.runFor 3 empty).fault ∧
      StackFits (whitespace.runFor 3 filled).fault ∧
      (whitespace.runFor 3 empty).state.stack ≠ (whitespace.runFor 3 filled).state.stack ∧
      (whitespace.runFor 3 empty).state.SameOverZeros (whitespace.runFor 3 filled).state := by
  intro befunge bare raised whitespace empty filled
  have same : bare.SameOverZeros raised := ⟨rfl, ⟨3, 0, rfl⟩, rfl, rfl, rfl⟩
  have fits : StackFits (befunge.runFor 7 bare).fault := by decide +kernel
  have fitsToo : StackFits (befunge.runFor 7 raised).fault := by decide +kernel
  have sameToo : empty.SameOverZeros filled := ⟨rfl, ⟨3, 0, rfl⟩, rfl, rfl, rfl⟩
  have room : StackFits (whitespace.runFor 3 empty).fault := by decide +kernel
  have roomToo : StackFits (whitespace.runFor 3 filled).fault := by decide +kernel
  obtain ⟨onField, onText⟩ := runs_abreast_over_zeros {}
  obtain ⟨trails, _, states⟩ := (onField _ bare raised same).cycles 7 fits fitsToo
  obtain ⟨_, _, statesToo⟩ := (onText _ empty filled sameToo).cycles 3 room roomToo
  exact ⟨⟨same, fits, fitsToo, by decide +kernel, trails, states⟩, sameToo, room, roomToo,
    by decide +kernel, statesToo⟩

end Esoterica
