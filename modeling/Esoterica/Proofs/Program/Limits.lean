import Esoterica.Proofs.Machine.Limits
import Esoterica.Proofs.Piet.Cycle
import Esoterica.Proofs.Program.Accepted

/-!
Limits only cut runs short. For each machine it is said what an instruction writes; the rest is true of
every machine that writes so.
-/

namespace Esoterica

theorem Brainfuck.execute_grows (program : Brainfuck.Program) (op : Brainfuck.Op)
    (state : State Brainfuck.Registers) :
    state.output.Grows none (Brainfuck.execute program op state).state.output := by
  cases op with
  | output => exact .character _
  | input =>
      simp only [execute, State.readChar]
      cases state.input.readChar.1 <;> exact .silent
  | left | loopOpen | loopClose =>
      simp only [execute]
      split <;> exact .silent
  | _ => exact .silent

theorem Malbolge.execute_grows (op : Malbolge.Op) (state : State Malbolge.Registers) :
    state.output.Grows none (Malbolge.execute op state).state.output := by
  cases op with
  | output => exact .character _
  | _ => exact .silent

namespace Befunge

theorem output_move (wrap : Bool) (state : State Registers) :
    (move wrap state).output = state.output := by
  simp only [move]
  split <;> rfl

theorem output_moveTimes (wrap : Bool) (state : State Registers) (count : Nat) :
    (moveTimes wrap state count).output = state.output := by
  induction count generalizing state with
  | zero => rfl
  | succ count inductionHypothesis =>
      simp only [moveTimes]
      split
      · exact output_move wrap state
      · rw [inductionHypothesis, output_move]

theorem output_moveToSemicolon (wrap : Bool) (state : State Registers) (count : Nat) :
    (moveToSemicolon wrap state count).output = state.output := by
  induction count generalizing state with
  | zero => rfl
  | succ count inductionHypothesis =>
      simp only [moveToSemicolon]
      split
      · exact output_move wrap state
      · rw [inductionHypothesis, output_move]

theorem output_jump (wrap : Bool) (state : State Registers) (count : Word) :
    (jump wrap state count).output = state.output := by
  simp only [jump]
  split <;> exact output_moveTimes wrap _ _

theorem output_put (state : State Registers) (x y value : Word) :
    (put state x y value).state.output = state.output := by
  unfold put
  split <;> rfl

theorem execute_grows (options : Options) (op : Op) (state : State Registers) :
    state.output.Grows (some " ") (execute options op state).state.output := by
  cases op with
  | outputNumber => exact .number _ rfl
  | outputChar => exact .character _
  | bridge => exact .of_eq (output_move options.wrap state)
  | put => exact .of_eq (output_put _ _ _ _)
  | jumpForward => exact .of_eq (output_jump options.wrap _ _)
  | skipComment => exact .of_eq (output_moveToSemicolon options.wrap state _)
  | compare =>
      simp only [execute]
      split
      · exact .silent
      · split <;> exact .silent
  | fetch =>
      simp only [execute]
      split <;> exact .of_eq (output_move options.wrap state)
  | store =>
      simp only [execute]
      split
      · exact .of_eq (output_move options.wrap _)
      · exact .of_eq ((output_put _ _ _ _).trans (output_move options.wrap _))
  | _ => exact .silent

end Befunge

namespace Whitespace

theorem output_jump (program : Program) (state : State Registers) (label : Label) :
    (jump program state label).state.output = state.output := by
  unfold jump
  split <;> rfl

theorem output_call (program : Program) (state : State Registers) (label : Label) :
    (call program state label).state.output = state.output := by
  unfold call
  split
  · rfl
  · simp only
    split <;> exact output_jump program state label

theorem execute_grows (program : Program) (op : Op) (state : State Registers) :
    state.output.Grows (some "") (execute program op state).state.output := by
  cases op with
  | outNum => exact .bareNumber _
  | outChar => exact .character _
  | call label => exact .of_eq (output_call program state label)
  | jump label => exact .of_eq (output_jump program state label)
  | jumpZero | jumpNegative =>
      simp only [execute]
      split
      · exact .of_eq (output_jump program _ _)
      · exact .silent
  | copy | ret =>
      simp only [execute]
      split <;> exact .silent
  | _ => exact .silent

end Whitespace

namespace Piet

theorem apply_grows (command : Command) (blockSize : Word) (state : State Registers) :
    state.output.Grows (some "") (apply command blockSize state).state.output := by
  cases command with
  | outNumber => exact .bareNumber _
  | outChar => exact .character _
  | switch =>
      simp only [apply]
      split <;> exact .silent
  | roll =>
      simp only [apply]
      split
      · exact .silent
      · simp only [Outcome.andThen]
        split <;> exact .silent
  | inNumber =>
      simp only [apply, State.readNumber]
      cases state.input.readNumber.1 <;> exact .silent
  | inChar =>
      simp only [apply, State.readChar]
      cases state.input.readChar.1 <;> exact .silent
  | _ => exact .silent

theorem output_meetWall (state : State Registers) (walls : Nat) :
    (meetWall state walls).output = state.output := by
  unfold meetWall
  split <;> rfl

theorem output_retry (state : State Registers) (attempts : Nat) :
    (retry state attempts).output = state.output := by
  unfold retry
  split <;> rfl

theorem execute_grows (op : Op) (state : State Registers) :
    state.output.Grows (some "") (execute op state).state.output := by
  cases op with
  | step target command blockSize =>
      cases command with
      | none => exact .silent
      | some command => exact apply_grows command _ state
  | slide => exact .silent
  | blocked =>
      simp only [execute]
      split
      · exact .of_eq (output_meetWall state _)
      · exact .of_eq (output_retry state _)
      · exact .of_eq (output_retry state _)

theorem output_advance (options : Options) (codels : Codels) (op : Op) (state : State Registers) :
    (advance options codels op state).output = state.output := by
  have entered (target : Codel) : (enter options codels target state).output = state.output := by
    by_cases white : codels.get? target = some .white
    · by_cases seen : (target, state.registers.dp) ∈ state.registers.whiteSeen
      · rw [enter_of_seen white seen]
        rfl
      · rw [enter_of_white white seen]
        rfl
    · rw [enter_of_colored white]
      rfl
  cases op with
  | step target | slide target => exact entered target
  | blocked => rfl

end Piet

namespace Program

/-- What each number in the output of a program is followed by, if the program writes numbers. -/
def numberEnd : Program → Option String
  | brainfuck _ | malbolge _ => none
  | befunge _ => some " "
  | whitespace _ | piet _ => some ""

/-- In every cycle of a program, at most one character or one number is written. -/
theorem withMachine_writes (options : Options) (program : Program) (dice : Befunge.Dice) :
    program.withMachine options (fun machine => machine.Writes program.numberEnd) dice := by
  cases program with
  | brainfuck program =>
      exact Machine.writes_of_execute (Brainfuck.execute_grows program) fun _ _ => rfl
  | befunge field =>
      exact Machine.writes_of_execute (Befunge.execute_grows options) fun _ state =>
        Befunge.output_move options.wrap state
  | malbolge program =>
      exact Machine.writes_of_execute Malbolge.execute_grows fun _ _ => rfl
  | whitespace program =>
      exact Machine.writes_of_execute (Whitespace.execute_grows program) fun _ _ => rfl
  | piet codels =>
      exact Machine.writes_of_execute Piet.execute_grows (Piet.output_advance options codels)

section Wider

variable {options : Options} {program : Program} {maxCycles maxOutput : Nat}
  (cycles : options.maxCycles ≤ maxCycles) (output : options.maxOutput ≤ maxOutput)

include cycles output

/-- What can be run under some limits can be run under wider ones. -/
theorem Accepted.widened (accepted : program.Accepted options) :
    program.Accepted { options with maxCycles, maxOutput } := by
  obtain ⟨codelSize, someCycles, someTime, someOutput⟩ := accepted.valid
  have validated : options.validate = .ok () :=
    Options.validate_eq_ok_iff.2 ⟨codelSize, someCycles, someTime, someOutput⟩
  have validatedToo : Options.validate { options with maxCycles, maxOutput } = .ok () :=
    Options.validate_eq_ok_iff.2
      ⟨codelSize, Nat.le_trans someCycles cycles, someTime, Nat.le_trans someOutput output⟩
  obtain ⟨language, source, loaded⟩ | ⟨codels, loaded⟩ := accepted.loaded
  · have loadedToo : load { options with maxCycles, maxOutput } language source = .ok program := by
      rw [← loaded]
      cases language <;>
        simp only [load, Brainfuck.Program.load, Befunge.load, Malbolge.Program.load,
          Whitespace.Program.load, validated, validatedToo]
    exact .asText loadedToo
  · have loadedToo : ofCodels { options with maxCycles, maxOutput } codels = .ok program := by
      rw [← loaded]
      simp only [ofCodels, Piet.load, validated, validatedToo]
    exact .asCodels loadedToo

end Wider

/-- Limits only cut a run short. A run that meets none of its limits comes out the same under wider
ones, and of a run that meets one the output is the beginning of what it would be under wider ones. The
dice are any, but the same for both. -/
theorem run_under_wider_limits (options : Options) (maxCycles maxOutput : Nat)
    (cycles : options.maxCycles ≤ maxCycles) (output : options.maxOutput ≤ maxOutput)
    (program : Program) (input : String) (dice : Befunge.Dice) :
    let wider : Options := { options with maxCycles, maxOutput }
    let run := program.run options input dice
    let whole := program.run wider input dice
    (program.Accepted options → program.Accepted wider) ∧
    ((∀ fault, run.fault = some fault → fault.kind.isLimit = false) →
      whole.output = run.output ∧ whole.fault = run.fault ∧ whole.cycles = run.cycles) ∧
    ((∃ fault, run.fault = some fault ∧ fault.kind.isLimit = true) →
      run.output.toList <+: whole.output.toList ∧ run.cycles ≤ whole.cycles) := by
  intro wider run whole
  have writes := program.withMachine_writes options dice
  have compared : (whole.output = run.output ∧ whole.fault = run.fault ∧ whole.cycles = run.cycles) ∨
      (∃ fault, run.fault = some fault ∧ fault.kind.isLimit = true) ∧
        run.output.toList <+: whole.output.toList ∧ run.cycles ≤ whole.cycles := by
    cases program with
    | brainfuck program =>
        exact writes.conclude_widened (Brainfuck.machine wider program) (fun _ => rfl) rfl cycles
          output input
    | befunge field =>
        exact writes.conclude_widened (Befunge.machine wider field dice) (fun _ => rfl) rfl cycles
          output input
    | malbolge program =>
        exact writes.conclude_widened (Malbolge.machine wider program) (fun _ => rfl) rfl cycles
          output input
    | whitespace program =>
        exact writes.conclude_widened (Whitespace.machine wider program) (fun _ => rfl) rfl cycles
          output input
    | piet codels =>
        exact writes.conclude_widened (Piet.machine wider codels) (fun _ => rfl) rfl cycles output
          input
  refine ⟨fun accepted => accepted.widened cycles output, ?_, ?_⟩
  · intro noLimit
    rcases compared with same | ⟨⟨fault, failed, limit⟩, _⟩
    · exact same
    · simp [noLimit fault failed] at limit
  · intro _
    rcases compared with ⟨sameOutput, _, sameCycles⟩ | ⟨_, cut⟩
    · rw [sameOutput, sameCycles]
      exact ⟨List.prefix_rfl, Nat.le_refl _⟩
    · exact cut

/-- A program that prints without end, under two limits of its output. -/
theorem run_under_wider_limits_printing :
    let options : Options := { wrap := true, maxCycles := 100, maxOutput := 4 }
    let wider : Options := { wrap := true, maxCycles := 200, maxOutput := 6 }
    let program := befunge (.ofSource "1.")
    program.Accepted options ∧ program.Accepted wider ∧
      ((program.run options "").fault.map Error.kind = some .outputTooLong) ∧
      (program.run options "").output = "1 1 " ∧
      (program.run options "").output.toList <+: (program.run wider "").output.toList ∧
      (program.run options "").cycles ≤ (program.run wider "").cycles := by
  intro options wider program
  have accepted : program.Accepted options :=
    .asText (show load options .befunge "1." = .ok program from rfl)
  have failed : (program.run options "").fault.map Error.kind = some .outputTooLong := by
    decide +kernel
  obtain ⟨fault, limit, kind⟩ := Option.map_eq_some_iff.1 failed
  obtain ⟨acceptedToo, _, cut⟩ :=
    run_under_wider_limits options 200 6 (by decide) (by decide) program "" (.ofSeed none)
  exact ⟨accepted, acceptedToo accepted, failed, by decide +kernel,
    cut ⟨fault, limit, by rw [kind]; rfl⟩⟩

end Program

end Esoterica
