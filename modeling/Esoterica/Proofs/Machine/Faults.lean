import Esoterica.Proofs.Machine.Conclusion

/-!
The kinds of errors with which an operation can fail. Every operation of a machine is made of a few
on the stack, for which it is said once how they fail.
-/

namespace Esoterica

namespace Error

/-- The error is of one of these kinds, and it may stand on the result of a run. -/
def Among (kinds : List Kind) (error : Error) : Prop :=
  error.kind ∈ kinds ∧ error.isFault

variable {kinds : List Kind} {error : Error}

@[simp] theorem among_during_iff {operation : String} :
    (error.during operation).Among kinds ↔ error.Among kinds := Iff.rfl

@[simp] theorem among_noting_iff {key value : String} :
    (error.noting key value).Among kinds ↔ error.Among kinds := Iff.rfl

@[simp] theorem among_divisionByZero_iff :
    divisionByZero.Among kinds ↔ .divisionByZero ∈ kinds :=
  and_iff_left rfl

@[simp] theorem among_pointerOutOfBounds_iff {moved : String} {position : Int} :
    (pointerOutOfBounds moved position).Among kinds ↔ .pointerOutOfBounds ∈ kinds :=
  and_iff_left rfl

@[simp] theorem among_stackOverflow_iff {limit : Nat} :
    (stackOverflow limit).Among kinds ↔ .stackOverflow ∈ kinds :=
  and_iff_left rfl

@[simp] theorem among_unsupported_iff {feature : String} :
    (unsupported feature).Among kinds ↔ .unsupportedFeature ∈ kinds :=
  and_iff_left rfl

end Error

namespace Outcome

variable {State : Type} {kinds : List Kind} {outcome : Outcome State}

/-- The operation fails with errors of these kinds at most. -/
def FailsAmong (kinds : List Kind) (outcome : Outcome State) : Prop :=
  ∀ error, outcome.fault = some error → error.Among kinds

@[simp] theorem failsAmong_none (state : State) : FailsAmong kinds ⟨state, none⟩ := by
  simp [FailsAmong]

@[simp] theorem failsAmong_some_iff {state : State} {error : Error} :
    FailsAmong kinds ⟨state, some error⟩ ↔ error.Among kinds := by
  simp [FailsAmong]

theorem FailsAmong.andThen {next : State → Outcome State} (first : outcome.FailsAmong kinds)
    (second : ∀ state, (next state).FailsAmong kinds) : (outcome.andThen next).FailsAmong kinds := by
  unfold Outcome.andThen
  split
  · exact second outcome.state
  · exact first

/-- How a failure is reported does not change its kind. -/
theorem FailsAmong.mapFault {change : Error → Error}
    (kept : ∀ error, (change error).Among kinds ↔ error.Among kinds)
    (fails : outcome.FailsAmong kinds) : (outcome.mapFault change).FailsAmong kinds := by
  intro error failed
  obtain ⟨original, equal, rfl⟩ := Option.map_eq_some_iff.1 failed
  exact (kept original).2 (fails original equal)

end Outcome

section Stack

variable {kinds : List Kind} (overflows : Kind.stackOverflow ∈ kinds)

include overflows

theorem Stack.push_failsAmong (stack : Stack) (value : Word) :
    (stack.push value).FailsAmong kinds := by
  unfold Stack.push
  split <;> simp [overflows]

theorem Stack.dup_failsAmong (stack : Stack) : stack.dup.FailsAmong kinds :=
  stack.push_failsAmong overflows _

theorem Stack.copy_failsAmong (stack : Stack) (depth : Nat) : (stack.copy depth).FailsAmong kinds :=
  stack.push_failsAmong overflows _

theorem Stack.swap_failsAmong (stack : Stack) : stack.swap.FailsAmong kinds :=
  (Stack.push_failsAmong overflows _ _).andThen fun _ => Stack.push_failsAmong overflows _ _

theorem Stack.negate_failsAmong (stack : Stack) : stack.negate.FailsAmong kinds :=
  Stack.push_failsAmong overflows _ _

/-- Only a division that minds zero fails because of one. -/
theorem Stack.binary_failsAmong (stack : Stack) (op : BinaryOp) {ignoreZero : Bool}
    (minds : ignoreZero = false → Kind.divisionByZero ∈ kinds) :
    (stack.binary op ignoreZero).FailsAmong kinds := by
  unfold Stack.binary
  simp only
  split
  · cases ignoreZero with
    | true =>
        exact (Stack.push_failsAmong overflows _ _).andThen fun _ => Stack.push_failsAmong overflows _ _
    | false => simpa using minds rfl
  · exact Stack.push_failsAmong overflows _ _

theorem State.push_failsAmong {Registers : Type} (state : State Registers) (value : Word) :
    (state.push value).FailsAmong kinds :=
  state.stack.push_failsAmong overflows value

end Stack

/-- A cycle fails as the instruction in it does. -/
theorem Machine.step_failsAmong {Op Registers : Type} {machine : Machine Op Registers}
    {kinds : List Kind} {state : State Registers}
    (executed : ∀ op, machine.decode state = some op → (machine.execute op state).FailsAmong kinds) :
    (machine.step state).FailsAmong kinds := by
  unfold Machine.step
  split
  · simp
  · rename_i op decoded
    simp only
    split
    · simp
    · exact executed op decoded

/-- A fault on the result of a run is a run-time fault, at a limit or of one of these kinds. -/
def Run.FaultsAmong (kinds : List Kind) (result : Run) : Prop :=
  ∀ fault, result.fault = some fault → fault.isFault ∧ (fault.kind.isLimit ∨ fault.kind ∈ kinds)

/-- However a run comes to its end, its fault is that of a cycle or that of a limit. -/
theorem Machine.Concludes.faultsAmong {Op Registers : Type} {machine : Machine Op Registers}
    {late : Prop} {start : State Registers} {finish : Finish Registers} {kinds : List Kind}
    (concludes : machine.Concludes late start finish)
    (steps : ∀ state, (machine.step state).FailsAmong kinds) (elapsed : Nat) :
    (machine.conclude finish elapsed).FaultsAmong kinds := by
  intro fault fails
  cases concludes with
  | @failed _ last _ _ _ stepFails =>
      cases fails
      obtain ⟨kind, isFault⟩ := steps last _ stepFails
      exact ⟨isFault, .inr kind⟩
  | ended => cases fails
  | cyclesUsed | timeUsed | outputFull =>
      cases fails
      exact ⟨rfl, .inl rfl⟩

end Esoterica
