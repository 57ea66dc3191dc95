import Esoterica.Machine

/-!
A program cycle by cycle, without regard to limits. A machine ends after as many cycles as it makes
before the one that fails or ends the program; it ends in one way at most.
-/

namespace Esoterica

/-- What can be put into a larger state can be put there after both of two operations. -/
theorem Outcome.within_andThen {Inner Outer : Type} {first : Outcome Inner} {embed : Inner → Outer}
    {next : Inner → Outcome Inner} {outerNext : Outer → Outcome Outer}
    (commutes : ∀ state, outerNext (embed state) = (next state).within embed) :
    (first.within embed).andThen outerNext = (first.andThen next).within embed := by
  unfold Outcome.andThen
  cases failed : first.fault with
  | none => simp only [Outcome.within, failed, commutes]
  | some fault => simp only [Outcome.within, failed]

namespace Machine

variable {Op Registers : Type}

/-- The state after a cycle that neither fails nor ends the program. -/
def next? (machine : Machine Op Registers) (state : State Registers) : Option (State Registers) :=
  let outcome := machine.step state
  if outcome.fault.isNone && !outcome.state.done then some outcome.state else none

/-- The state after some cycles, none of which fails or ends the program. -/
def after? (machine : Machine Op Registers) : Nat → State Registers → Option (State Registers)
  | 0, state => some state
  | cycles + 1, state => (machine.next? state).bind (machine.after? cycles)

/-- The program goes on for some cycles, and the cycle after them is its last one. -/
def EndsAfter (machine : Machine Op Registers) (cycles : Nat) (state : State Registers)
    (outcome : Outcome (State Registers)) : Prop :=
  ∃ last, machine.after? cycles state = some last ∧ machine.next? last = none ∧
    machine.step last = outcome

/-- The program comes to an end from this state. -/
def Ends (machine : Machine Op Registers) (state : State Registers)
    (outcome : Outcome (State Registers)) : Prop :=
  ∃ cycles, machine.EndsAfter cycles state outcome

variable {machine : Machine Op Registers} {state middle next : State Registers}
  {outcome other : Outcome (State Registers)}

/-- A cycle carries out its instruction and then moves on, unless the program has ended. -/
theorem step_eq_andThen {op : Op} (decoded : machine.decode state = some op) :
    machine.step state = (machine.execute op state).andThen fun after =>
      ⟨if after.done then after else machine.advance op after, none⟩ := by
  simp only [step, decoded]
  rcases machine.execute op state with ⟨after, _ | fault⟩
  · cases ended : after.done <;> simp [Outcome.andThen, ended]
  · simp [Outcome.andThen]

theorem next?_eq_some_iff :
    machine.next? state = some next ↔ machine.step state = ⟨next, none⟩ ∧ next.ending = none := by
  unfold next?
  rcases machine.step state with ⟨left, _ | fault⟩
  · cases running : left.ending with
    | none =>
        simp only [Option.isNone_none, State.done, running, Option.isSome_none, Bool.not_false,
          Bool.and_self, ↓reduceIte, Option.some.injEq, Outcome.mk.injEq, and_true]
        constructor
        · rintro rfl
          exact ⟨rfl, running⟩
        · exact And.left
    | some ending =>
        simp only [Option.isNone_none, State.done, running, Option.isSome_some, Bool.not_true,
          Bool.and_false, Bool.false_eq_true, ↓reduceIte, reduceCtorEq, Outcome.mk.injEq, and_true,
          false_iff, not_and]
        rintro rfl
        simp [running]
  · simp

/-- A cycle is the last one exactly if it fails or ends the program. -/
theorem next?_eq_none_iff :
    machine.next? state = none ↔
      (machine.step state).fault.isSome ∨ (machine.step state).state.done := by
  unfold next?
  rcases machine.step state with ⟨left, _ | fault⟩
  · cases ended : left.done <;> simp [ended]
  · simp

@[simp] theorem after?_zero : machine.after? 0 state = some state := rfl

theorem after?_succ (cycles : Nat) :
    machine.after? (cycles + 1) state = (machine.next? state).bind (machine.after? cycles) := rfl

theorem after?_one : machine.after? 1 state = machine.next? state := by
  cases stepped : machine.next? state <;> simp [after?_succ, stepped]

theorem after?_add (first second : Nat) :
    machine.after? (first + second) state =
      (machine.after? first state).bind (machine.after? second) := by
  induction first generalizing state with
  | zero => simp
  | succ first inductionHypothesis =>
      rw [Nat.add_right_comm, after?_succ, after?_succ, Option.bind_assoc]
      congr 1
      funext next
      exact inductionHypothesis

theorem endsAfter_zero_iff :
    machine.EndsAfter 0 state outcome ↔ machine.next? state = none ∧ machine.step state = outcome := by
  simp [EndsAfter]

/-- A known beginning can be put before an end. -/
theorem EndsAfter.prepend {first second : Nat} (begun : machine.after? first state = some middle)
    (ends : machine.EndsAfter second middle outcome) :
    machine.EndsAfter (first + second) state outcome := by
  obtain ⟨last, reached, final, result⟩ := ends
  exact ⟨last, by rw [after?_add, begun, Option.bind_some, reached], final, result⟩

/-- A known beginning is part of every end, since a state has one successor at most. -/
theorem EndsAfter.drop {first cycles : Nat} (ends : machine.EndsAfter cycles state outcome)
    (begun : machine.after? first state = some middle) :
    ∃ rest, cycles = first + rest ∧ machine.EndsAfter rest middle outcome := by
  obtain ⟨last, reached, final, result⟩ := ends
  rcases Nat.le_total first cycles with shorter | longer
  · obtain ⟨rest, rfl⟩ := Nat.exists_eq_add_of_le shorter
    rw [after?_add, begun, Option.bind_some] at reached
    exact ⟨rest, rfl, last, reached, final, result⟩
  · obtain ⟨rest, rfl⟩ := Nat.exists_eq_add_of_le longer
    rw [after?_add, reached, Option.bind_some] at begun
    cases rest with
    | zero =>
        rw [after?_zero, Option.some.injEq] at begun
        exact ⟨0, rfl, last, by rw [begun, after?_zero], final, result⟩
    | succ rest => simp [after?_succ, final] at begun

/-- A program ends in one way at most. -/
theorem Ends.unique (first : machine.Ends state outcome) (second : machine.Ends state other) :
    outcome = other := by
  obtain ⟨cycles, last, reached, final, rfl⟩ := first
  obtain ⟨total, ends⟩ := second
  obtain ⟨rest, rfl, last', reached', final', rfl⟩ := ends.drop reached
  cases rest with
  | zero =>
      rw [after?_zero, Option.some.injEq] at reached'
      rw [reached']
  | succ rest => simp [after?_succ, final] at reached'

end Machine

end Esoterica
