import Esoterica.Proofs.Machine.Faults
import Esoterica.Proofs.Program.Accepted
import Esoterica.Proofs.Whitespace.RoundTrip

/-!
The faults on the results of runs. Besides the three limits, each machine has its own few kinds.
-/

namespace Esoterica

theorem Brainfuck.execute_failsAmong (program : Brainfuck.Program) (op : Brainfuck.Op)
    (state : State Brainfuck.Registers) :
    (Brainfuck.execute program op state).FailsAmong [.pointerOutOfBounds] := by
  cases op with
  | left =>
      simp only [execute]
      split <;> simp [offTape]
  | input =>
      simp only [execute]
      split <;> simp
  | _ => simp [execute]

/-- Nothing fails in Malbolge. -/
theorem Malbolge.execute_failsAmong (op : Malbolge.Op) (state : State Malbolge.Registers) :
    (Malbolge.execute op state).FailsAmong [] := by
  cases op <;> simp [execute]

theorem Befunge.Op.primary?_ne_unsupported (c instruction : Char) (feature : Befunge.Feature) :
    Befunge.Op.primary? c ≠ some (.unsupported instruction feature) := by
  unfold primary?
  split
  · simp
  · split <;> simp

/-- Only Befunge-98 has instructions that the machine does not carry out. -/
theorem Befunge.dialect_of_decode_unsupported {options : Options} {state : State Befunge.Registers}
    {instruction : Char} {feature : Befunge.Feature}
    (decoded : Befunge.decode options state = some (.unsupported instruction feature)) :
    options.dialect = .befunge98 := by
  obtain ⟨cell, _, equal⟩ := Option.map_eq_some_iff.1 decoded
  cases dialect : options.dialect with
  | befunge98 => rfl
  | befunge93 =>
      rw [dialect] at equal
      have never := Op.primary?_ne_unsupported
      grind [Op.decode, Op.unknown]

section Befunge

variable {kinds : List Kind} (overflows : Kind.stackOverflow ∈ kinds)
  (divides : Kind.divisionByZero ∈ kinds) (leaves : Kind.pointerOutOfBounds ∈ kinds)

include leaves in
theorem Befunge.put_failsAmong (state : State Befunge.Registers) (x y value : Word) :
    (Befunge.put state x y value).FailsAmong kinds := by
  unfold put
  split <;> simp [runFault, leaves]

include overflows divides in
theorem Befunge.binary_failsAmong (state : State Befunge.Registers) (op : BinaryOp) :
    (Befunge.binary state op).FailsAmong kinds :=
  Outcome.FailsAmong.mapFault (fun _ => Iff.rfl)
    (Stack.binary_failsAmong overflows state.stack op fun _ => divides)

include overflows divides leaves in
theorem Befunge.execute_failsAmong (options : Options) (op : Befunge.Op)
    (known : ∀ instruction feature, op = .unsupported instruction feature →
      Kind.unsupportedFeature ∈ kinds) (state : State Befunge.Registers) :
    (Befunge.execute options op state).FailsAmong kinds := by
  cases op with
  | unsupported instruction feature => simpa [execute, refuse, runFault] using known _ _ rfl
  | push | pushChar | get | inputNumber | inputChar => exact State.push_failsAmong overflows _ _
  | add | sub | mul | div | mod | greater => exact binary_failsAmong overflows divides _ _
  | not => exact Stack.negate_failsAmong overflows _
  | dup => exact Stack.dup_failsAmong overflows _
  | swap => exact Stack.swap_failsAmong overflows _
  | put => exact put_failsAmong leaves _ _ _ _
  | compare =>
      simp only [execute]
      split
      · simp
      · split <;> simp
  | fetch =>
      simp only [execute]
      split
      · simp
      · exact State.push_failsAmong overflows _ _
  | store =>
      simp only [execute]
      split
      · simp
      · exact put_failsAmong leaves _ _ _ _
  | _ => simp [execute]

end Befunge

/-- Piet leaves the operands of a division by zero in place. -/
theorem Piet.apply_failsAmong (command : Piet.Command) (blockSize : Word)
    (state : State Piet.Registers) :
    (Piet.apply command blockSize state).FailsAmong [.stackOverflow] := by
  have overflows : Kind.stackOverflow ∈ [Kind.stackOverflow] := List.mem_singleton_self _
  cases command with
  | push => exact State.push_failsAmong overflows _ _
  | add | subtract | multiply | divide | mod | greater =>
      exact Stack.binary_failsAmong overflows _ _ (by simp)
  | not => exact Stack.negate_failsAmong overflows _
  | duplicate => exact Stack.dup_failsAmong overflows _
  | roll =>
      simp only [apply]
      split
      · simp
      · exact (State.push_failsAmong overflows _ _).andThen fun _ =>
          State.push_failsAmong overflows _ _
  | inNumber | inChar =>
      simp only [apply]
      split
      · exact State.push_failsAmong overflows _ _
      · simp
  | switch =>
      simp only [apply]
      split <;> simp
  | _ => simp [apply]

theorem Piet.execute_failsAmong (op : Piet.Op) (state : State Piet.Registers) :
    (Piet.execute op state).FailsAmong [.stackOverflow] := by
  cases op with
  | step target command blockSize =>
      cases command with
      | none => simp [execute]
      | some command => exact apply_failsAmong _ _ _
  | slide => simp [execute]
  | blocked =>
      simp only [execute]
      split <;> simp

section Whitespace

variable {kinds : List Kind} (overflows : Kind.stackOverflow ∈ kinds)
  (divides : Kind.divisionByZero ∈ kinds) (leaves : Kind.pointerOutOfBounds ∈ kinds)
  {program : Whitespace.Program} {label : Whitespace.Label}

/-- A jump to a label that leads somewhere does not fail. -/
theorem Whitespace.jump_failsAmong (marked : (program.target? label).isSome)
    (state : State Whitespace.Registers) : (Whitespace.jump program state label).FailsAmong kinds := by
  obtain ⟨index, target⟩ := Option.isSome_iff_exists.1 marked
  simp [jump, target]

include overflows in
theorem Whitespace.call_failsAmong (marked : (program.target? label).isSome)
    (state : State Whitespace.Registers) : (Whitespace.call program state label).FailsAmong kinds := by
  unfold call
  split
  · simp [runFault, overflows]
  · simp only
    split
    · exact jump_failsAmong marked state
    · simp

include overflows divides in
theorem Whitespace.binary_failsAmong (state : State Whitespace.Registers) (op : BinaryOp) :
    (Whitespace.binary program state op).FailsAmong kinds :=
  Outcome.FailsAmong.mapFault (fun _ => Iff.rfl)
    (Stack.binary_failsAmong overflows state.stack op fun _ => divides)

include overflows divides leaves in
theorem Whitespace.execute_failsAmong (op : Whitespace.Op)
    (marked : ∀ label, op.target? = some label → (program.target? label).isSome)
    (state : State Whitespace.Registers) :
    (Whitespace.execute program op state).FailsAmong kinds := by
  cases op with
  | push | retrieve => exact State.push_failsAmong overflows _ _
  | dup => exact Stack.dup_failsAmong overflows _
  | copy =>
      simp only [execute]
      split
      · simp [runFault, leaves]
      · exact Stack.copy_failsAmong overflows _ _
  | swap => exact Stack.swap_failsAmong overflows _
  | add | sub | mul | div | mod => exact binary_failsAmong overflows divides _ _
  | call => exact call_failsAmong overflows (marked _ rfl) _
  | jump => exact jump_failsAmong (marked _ rfl) _
  | jumpZero | jumpNegative =>
      simp only [execute]
      split
      · exact jump_failsAmong (marked _ rfl) _
      · simp
  | ret =>
      simp only [execute]
      split <;> simp
  | _ => simp [execute]

end Whitespace

namespace Program

variable {options : Options} {program : Program}

/-- Every label to which an accepted Whitespace program jumps leads somewhere. -/
theorem Accepted.target?_isSome {program : Whitespace.Program}
    (accepted : (whitespace program).Accepted options) {op : Whitespace.Op}
    (member : op ∈ program.ops.toList) {label : Whitespace.Label}
    (targets : op.target? = some label) : (program.target? label).isSome := by
  have parsed : ∃ source, Whitespace.Program.parse source = .ok program := by
    obtain ⟨language, source, loaded⟩ | ⟨codels, loaded⟩ := accepted.loaded
    · cases language with
      | whitespace =>
          obtain ⟨_, loaded, equal⟩ := map_eq_ok_iff.1 loaded
          cases equal
          exact ⟨source, (Whitespace.load_eq_ok_iff.1 loaded).2⟩
      | piet => simp [load] at loaded
      | _ =>
          obtain ⟨_, _, equal⟩ := map_eq_ok_iff.1 loaded
          cases equal
    · obtain ⟨_, _, equal⟩ := map_eq_ok_iff.1 loaded
      cases equal
  obtain ⟨source, parsed⟩ := parsed
  have marked := (Whitespace.loadable_of_parse parsed).2.marksTargets op member label targets
  obtain ⟨index, there⟩ := List.mem_iff_getElem?.1 marked
  rw [(Whitespace.target?_eq_some_iff parsed).2 ⟨index, there, rfl⟩]
  rfl

/-- The kinds of errors with which runs of a program can fail, besides the three limits. -/
def faultKinds (options : Options) : Program → List Kind
  | brainfuck _ => [.pointerOutOfBounds]
  | befunge _ =>
    [.divisionByZero, .pointerOutOfBounds, .stackOverflow] ++
      if options.dialect = .befunge98 then [.unsupportedFeature] else []
  | malbolge _ => []
  | whitespace _ => [.divisionByZero, .pointerOutOfBounds, .stackOverflow]
  | piet _ => [.stackOverflow]

/-- In no state does an accepted program fail with another kind. -/
theorem Accepted.step_failsAmong (accepted : program.Accepted options) (dice : Befunge.Dice) :
    program.withMachine options (fun machine => machine.options = options ∧
      ∀ state, (machine.step state).FailsAmong (program.faultKinds options)) dice := by
  cases program with
  | brainfuck program =>
      refine ⟨rfl, fun state => Machine.step_failsAmong fun op _ => ?_⟩
      exact Brainfuck.execute_failsAmong program op state
  | befunge field =>
      refine ⟨rfl, fun state => Machine.step_failsAmong fun op decoded => ?_⟩
      refine Befunge.execute_failsAmong (by simp [faultKinds]) (by simp [faultKinds])
        (by simp [faultKinds]) options op ?_ state
      rintro instruction feature rfl
      simp [faultKinds, Befunge.dialect_of_decode_unsupported decoded]
  | malbolge program =>
      refine ⟨rfl, fun state => Machine.step_failsAmong fun op _ => ?_⟩
      exact Malbolge.execute_failsAmong op state
  | whitespace program =>
      refine ⟨rfl, fun state => Machine.step_failsAmong fun op decoded => ?_⟩
      refine Whitespace.execute_failsAmong (by simp [faultKinds]) (by simp [faultKinds])
        (by simp [faultKinds]) op ?_ state
      intro label targets
      exact accepted.target?_isSome (Array.mem_toList_iff.2 (Array.mem_of_getElem? decoded)) targets
  | piet codels =>
      refine ⟨rfl, fun state => Machine.step_failsAmong fun op _ => ?_⟩
      exact Piet.execute_failsAmong op state

/-- Only run-time faults reach a result: those of the limits, and the kinds of the machine. This holds
of runs with all the time they need and of runs against any clock, whatever the dice. -/
theorem faults_of_runs (options : Options) (program : Program) (accepted : program.Accepted options)
    (dice : Befunge.Dice) :
    (∀ input, (program.run options input dice).FaultsAmong (program.faultKinds options)) ∧
    ∀ (Host : Type) (now : StateM Host Nat) (level : Option Level) (input : String) (host : Host),
      Run.FaultsAmong (program.faultKinds options)
        ((recordWith now options program level input dice).run host).run.1.run := by
  have valid := accepted.valid
  have steps := accepted.step_failsAmong dice
  constructor
  · intro input
    unfold run record
    refine withMachine_imp (fun record : Record => record.run.FaultsAmong _) steps ?_
    rintro Op Registers machine ⟨rfl, steps⟩
    exact (Machine.concludes_finish valid input).faultsAmong steps 0
  · intro Host now level input host
    unfold recordWith
    refine withMachine_imp
      (fun record : StateM Host Record => (record.run host).run.1.run.FaultsAmong _) steps ?_
    rintro Op Registers machine ⟨rfl, steps⟩
    exact (Machine.concludes_runWith (fun _ _ => trivial) valid input _).faultsAmong steps _

theorem faults_of_division :
    let options : Options := { maxCycles := 5 }
    let program := befunge (.ofSource "10/")
    program.Accepted options ∧ ∃ fault, (program.run options "").fault = some fault ∧
      fault.kind = .divisionByZero ∧ fault.isFault ∧
      (fault.kind.isLimit ∨ fault.kind ∈ program.faultKinds options) := by
  intro options program
  have accepted : program.Accepted options :=
    .asText (show load options .befunge "10/" = .ok program from rfl)
  have failed : (program.run options "").fault.map Error.kind = some .divisionByZero := by
    decide +kernel
  obtain ⟨fault, failed, kind⟩ := Option.map_eq_some_iff.1 failed
  exact ⟨accepted, fault, failed, kind,
    (faults_of_runs options program accepted (.ofSeed none)).1 "" fault failed⟩

end Program

end Esoterica
