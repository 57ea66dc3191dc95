import Esoterica.Proofs.Program.Faults

/-!
The account of a run. The number of cycles on a result says where the run stopped, and why it stopped
there.
-/

namespace Esoterica

/-- The counted length of an output is the length of its text. -/
theorem Output.length_text (output : Output) : output.text.length = output.length := by
  simp [text, length, output.countEq]

/-- The account of a run whose last cycle comes after `made` others. -/
structure Machine.Accounts {Op Registers : Type} (machine : Machine Op Registers) (input : String)
    (finish : Finish Registers) (made : Nat) : Prop where
  within : made < machine.options.maxCycles
  lastCycle : ∃ last, machine.after? made (machine.initial input) = some last ∧
    finish.state = (machine.step last).state
  /-- Before every cycle but the first there was room for more output. -/
  room : ∀ cycles state, 0 < cycles → cycles ≤ made →
    machine.after? cycles (machine.initial input) = some state →
      state.output.text.length < machine.options.maxOutput
  /-- Every cycle counts but one that fails. -/
  counted : (∀ fault, finish.fault = some fault → fault.kind.isLimit) → finish.cycles = made + 1
  ended : finish.fault = none →
    finish.state.done ∧ 1 ≤ finish.cycles ∧ finish.cycles ≤ machine.options.maxCycles
  cyclesUsed : ∀ fault, finish.fault = some fault → fault.kind = .exceededCycles →
    finish.cycles = machine.options.maxCycles
  outputFull : ∀ fault, finish.fault = some fault → fault.kind = .outputTooLong →
    machine.options.maxOutput ≤ finish.state.output.text.length ∧
      finish.cycles < machine.options.maxCycles
  failed : ∀ fault, finish.fault = some fault → fault.kind ≠ .exceededCycles →
    fault.kind ≠ .outputTooLong →
      finish.cycles < machine.options.maxCycles ∧ finish.cycles = made ∧
        ∃ last, machine.after? made (machine.initial input) = some last ∧
          (machine.step last).fault = some fault

section Account

variable {Op Registers : Type} {machine : Machine Op Registers} {kinds : List Kind} {input : String}
  {finish : Finish Registers}

theorem Machine.Proceeds.room_text {start last : State Registers} {made : Nat}
    (proceeds : machine.Proceeds start made last) (cycles : Nat) (state : State Registers)
    (positive : 0 < cycles) (within : cycles ≤ made)
    (reached : machine.after? cycles start = some state) :
    state.output.text.length < machine.options.maxOutput := by
  rw [Output.length_text]
  exact proceeds.room cycles state positive within reached

/-- The end of a run with all the time it needs gives its account, if no cycle fails as if it had met
a limit. -/
theorem Machine.Concludes.accounts
    (concludes : machine.Concludes False (machine.initial input) finish)
    (steps : ∀ state, (machine.step state).FailsAmong kinds)
    (noLimits : ∀ kind ∈ kinds, kind.isLimit = false) :
    ∃ made, machine.Accounts input finish made := by
  cases concludes with
  | @failed cycles last fault proceeds within fails =>
      have noLimit := noLimits _ (steps last fault fails).1
      refine ⟨cycles, within, ⟨last, proceeds.reaches, rfl⟩, proceeds.room_text, ?_, by simp, ?_, ?_, ?_⟩
      · intro limits
        simp [limits fault rfl] at noLimit
      · rintro _ ⟨⟩ kind
        simp [kind, Kind.isLimit] at noLimit
      · rintro _ ⟨⟩ kind
        simp [kind, Kind.isLimit] at noLimit
      · rintro _ ⟨⟩ _ _
        exact ⟨within, rfl, last, proceeds.reaches, fails⟩
  | @ended cycles last proceeds within succeeds done =>
      refine ⟨cycles, within, ⟨last, proceeds.reaches, rfl⟩, proceeds.room_text, fun _ => rfl, ?_,
        by simp, by simp, by simp⟩
      exact fun _ => ⟨done, by simp, within⟩
  | @cyclesUsed cycles last next proceeds goesOn all =>
      have stepped := (next?_eq_some_iff.1 goesOn).1
      refine ⟨cycles, by omega, ⟨last, proceeds.reaches, by rw [stepped]⟩, proceeds.room_text,
        fun _ => rfl, by simp, fun _ _ _ => all, ?_, ?_⟩
      · rintro _ ⟨⟩ kind
        cases kind
      · rintro _ ⟨⟩ kind
        exact (kind rfl).elim
  | timeUsed _ _ _ impossible => exact impossible.elim
  | @outputFull cycles last next proceeds goesOn within full =>
      have stepped := (next?_eq_some_iff.1 goesOn).1
      refine ⟨cycles, by omega, ⟨last, proceeds.reaches, by rw [stepped]⟩, proceeds.room_text,
        fun _ => rfl, by simp, ?_, fun _ _ _ => ⟨by rwa [Output.length_text], within⟩, ?_⟩
      · rintro _ ⟨⟩ kind
        cases kind
      · rintro _ ⟨⟩ _ kind
        exact (kind rfl).elim

end Account

namespace Program

theorem faultKinds_isLimit (options : Options) (program : Program) :
    ∀ kind ∈ program.faultKinds options, kind.isLimit = false := by
  cases program with
  | befunge field =>
      cases options.dialect <;> simp [faultKinds, Kind.isLimit]
  | _ => simp [faultKinds, Kind.isLimit]

/-- Every run of an accepted program has its account, whatever the dice, and the output of every state
is counted right. -/
theorem run_accounts (options : Options) (program : Program) (accepted : program.Accepted options)
    (input : String) (dice : Befunge.Dice) :
    program.withMachine options (fun machine =>
      program.run options input dice = machine.conclude (machine.finish input) 0 ∧
        ∃ made, machine.Accounts input (machine.finish input) made) dice ∧
    ∀ output : Output, output.length = output.text.length := by
  have valid := accepted.valid
  have steps := accepted.step_failsAmong dice
  have noLimits := faultKinds_isLimit options program
  refine ⟨?_, fun output => output.length_text.symm⟩
  cases program <;> exact ⟨rfl, (Machine.concludes_finish valid input).accounts steps.2 noLimits⟩

/-- A program that prints without end is stopped in the cycle that fills its output. -/
theorem run_accounts_printing :
    let options : Options := { wrap := true, maxCycles := 100, maxOutput := 4 }
    let field : Befunge.Field := .ofSource "1."
    let machine := Befunge.machine options field
    (befunge field).Accepted options ∧ ((befunge field).run options "").cycles = 4 ∧
      ((befunge field).run options "").fault.map Error.kind = some .outputTooLong ∧
      ∃ made, machine.Accounts "" (machine.finish "") made := by
  intro options field machine
  have accepted : (befunge field).Accepted options :=
    .asText (show load options .befunge "1." = .ok (befunge field) from rfl)
  exact ⟨accepted, by decide +kernel, by decide +kernel,
    (run_accounts options (befunge field) accepted "" (.ofSeed none)).1.2⟩

end Program

end Esoterica
