import Esoterica.Proofs.Befunge.Printing
import Esoterica.Proofs.Program.Accounting
import Esoterica.Proofs.Program.Limits

/-!
How long an output can become. Its limit is checked between cycles, so every cycle begins with room for one
more character, and what the last cycle writes may go past the limit. The longest that one cycle writes is
the least word with what ends a number.
-/

namespace Esoterica

theorem Word.length_text_le (value : Word) : value.text.length ≤ 20 := by
  have digits := value.length_toDigits_le
  rw [← String.length_toList, toList_text, List.length_append]
  split <;> simp only [List.length_cons, List.length_nil] <;> omega

/-- The most characters that a cycle writes, if numbers end so. -/
def Output.most : Option String → Nat
  | none => 1
  | some ending => 20 + ending.length

theorem Output.Grows.length_le {numberEnd : Option String} {before after : Output}
    (grows : before.Grows numberEnd after) : after.length ≤ before.length + most numberEnd := by
  cases grows with
  | silent => exact Nat.le_add_right _ _
  | character code =>
      have atLeastOne : 1 ≤ most numberEnd := by
        cases numberEnd <;> simp only [most] <;> omega
      exact Nat.add_le_add_left atLeastOne _
  | @number value ending ends =>
      have digits := value.length_text_le
      rw [ends]
      simp only [length, writeText, most, String.length_append]
      omega

namespace Machine

variable {Op Registers : Type} {machine : Machine Op Registers} {numberEnd : Option String}
  {input : String}

/-- Every cycle begins with room for more output. -/
theorem Proceeds.length_lt {cycles : Nat} {last : State Registers}
    (proceeds : machine.Proceeds (machine.initial input) cycles last)
    (atLeastOne : 1 ≤ machine.options.maxOutput) : last.output.length < machine.options.maxOutput := by
  rcases Nat.eq_zero_or_pos cycles with rfl | positive
  · cases proceeds.reaches
    exact atLeastOne
  · exact proceeds.room cycles last positive (Nat.le_refl _) proceeds.reaches

/-- However a run ends, it ends with what its last cycle leaves. -/
theorem Concludes.lastCycle {late : Prop} {start : State Registers} {finish : Finish Registers}
    (concludes : machine.Concludes late start finish) :
    ∃ cycles last, machine.Proceeds start cycles last ∧ finish.state = (machine.step last).state := by
  cases concludes with
  | failed proceeds | ended proceeds => exact ⟨_, _, proceeds, rfl⟩
  | cyclesUsed proceeds goesOn | timeUsed proceeds goesOn | outputFull proceeds goesOn =>
      refine ⟨_, _, proceeds, ?_⟩
      rw [(next?_eq_some_iff.1 goesOn).1]

theorem Writes.length_finish_lt (writes : machine.Writes numberEnd) (valid : machine.options.Valid)
    (input : String) :
    (machine.finish input).state.output.length < machine.options.maxOutput + Output.most numberEnd := by
  obtain ⟨_, last, proceeds, final⟩ := (concludes_finish valid input).lastCycle
  have room := proceeds.length_lt valid.2.2.2
  have written := (writes last).length_le
  rw [final]
  omega

end Machine

namespace Program

/-- How far the output of a program can go past its limit. -/
def overshoot : Program → Nat
  | brainfuck _ | malbolge _ => 0
  | whitespace _ | piet _ => 19
  | befunge _ => 20

theorem most_numberEnd (program : Program) : Output.most program.numberEnd = program.overshoot + 1 := by
  cases program <;> rfl

/-- The output of a run goes past its limit by what one cycle can write beyond a single character,
whatever the dice. -/
theorem output_stays_near_limit (options : Options) (program : Program)
    (accepted : program.Accepted options) (input : String) (dice : Befunge.Dice) :
    (program.run options input dice).output.length ≤ options.maxOutput + program.overshoot := by
  have valid := accepted.valid
  have writes := program.withMachine_writes options dice
  have below : (program.run options input dice).output.length <
      options.maxOutput + Output.most program.numberEnd := by
    cases program <;>
      exact (Output.length_text _).trans_lt (writes.length_finish_lt valid input)
  rw [most_numberEnd] at below
  omega

/-- The least word, a product of eights, with the blank behind it fills the bound. -/
theorem output_stays_near_limit_least :
    let options : Options := { maxOutput := 1 }
    let program := befunge (.ofSource "88*8*8*8*8*8*8*8*8*8*8*8*8*8*8*8*8*8*8*8*.@")
    program.Accepted options ∧
      (program.run options "").output = "-9223372036854775808 " ∧ program.overshoot = 20 ∧
      (program.run options "").output.length ≤ options.maxOutput + program.overshoot := by
  intro options program
  have accepted : program.Accepted options :=
    .asText (show load options .befunge _ = .ok program from rfl)
  exact ⟨accepted, by decide +kernel, rfl, output_stays_near_limit options program accepted "" (.ofSeed none)⟩

end Program

end Esoterica
