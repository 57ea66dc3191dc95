import Esoterica.Proofs.Machine.Cycles

/-!
The states that a program goes through, the one in which it has ended among them, and the instructions
that lead from one to the next.
-/

namespace Esoterica.Machine

variable {Op Registers : Type}

/-- The program comes to a state in some cycles, none of which fails. The last of them may have ended
the program. -/
inductive Reaches (machine : Machine Op Registers) (start : State Registers) :
    Nat → State Registers → Prop where
  | start : Reaches machine start 0 start
  | cycle {cycles : Nat} {state next : State Registers} (reached : Reaches machine start cycles state)
      (running : state.ending = none) (stepped : machine.step state = ⟨next, none⟩) :
      Reaches machine start (cycles + 1) next

variable {machine : Machine Op Registers} {start state next : State Registers} {cycles : Nat}

/-- As long as the program has not ended, it goes on. -/
theorem Reaches.after? (reached : machine.Reaches start cycles state) (running : state.ending = none) :
    machine.after? cycles start = some state := by
  induction reached with
  | start => rfl
  | cycle _ earlier stepped inductionHypothesis =>
      have goesOn := next?_eq_some_iff.2 ⟨stepped, running⟩
      rw [after?_add, inductionHypothesis earlier, Option.bind_some, after?_one, goesOn]

theorem after?_succ_eq_some_iff :
    machine.after? (cycles + 1) start = some next ↔
      ∃ state, machine.after? cycles start = some state ∧ machine.next? state = some next := by
  rw [after?_add, Option.bind_eq_some_iff]
  simp only [after?_one]

theorem running_of_after? (started : start.ending = none)
    (reached : machine.after? cycles start = some state) : state.ending = none := by
  cases cycles with
  | zero =>
      rw [after?_zero, Option.some.injEq] at reached
      exact reached ▸ started
  | succ cycles =>
      obtain ⟨before, _, goesOn⟩ := after?_succ_eq_some_iff.1 reached
      exact (next?_eq_some_iff.1 goesOn).2

theorem reaches_of_after? (started : start.ending = none)
    (reached : machine.after? cycles start = some state) : machine.Reaches start cycles state := by
  induction cycles generalizing state with
  | zero =>
      rw [after?_zero, Option.some.injEq] at reached
      exact reached ▸ .start
  | succ cycles inductionHypothesis =>
      obtain ⟨before, earlier, goesOn⟩ := after?_succ_eq_some_iff.1 reached
      exact .cycle (inductionHypothesis earlier) (running_of_after? started earlier)
        (next?_eq_some_iff.1 goesOn).1

/-- Without an instruction the program has no further state. -/
theorem next?_eq_none_of_decode (undecoded : machine.decode state = none) :
    machine.next? state = none := by
  have ranOff : machine.step state = ⟨state.halt .ranOff, none⟩ := by
    simp only [step, undecoded]
  rw [next?_eq_none_iff, ranOff]
  exact .inr rfl

/-- The trail of a cycle that does not come last goes on with the trail of the next state. -/
theorem trail_of_next? (goesOn : machine.next? state = some next) (cycles : Nat) :
    machine.trail (cycles + 1) state =
      (machine.decode state).toList ++ machine.trail cycles next := by
  obtain ⟨stepped, running⟩ := next?_eq_some_iff.1 goesOn
  cases decoded : machine.decode state with
  | none => simp [next?_eq_none_of_decode decoded] at goesOn
  | some op => simp [trail, decoded, stepped, State.done, running]

/-- The trail ends with the last cycle. -/
theorem trail_of_last (final : machine.next? state = none) (cycles : Nat) :
    machine.trail (cycles + 1) state = (machine.decode state).toList := by
  cases decoded : machine.decode state with
  | none => simp [trail, decoded]
  | some op =>
      rcases next?_eq_none_iff.1 final with failed | ended
      · simp [trail, decoded, Option.isSome_iff_ne_none.1 failed]
      · simp [trail, decoded, ended]

/-- With one more cycle, the instruction in it comes last. -/
theorem trail_succ (reached : machine.after? cycles start = some state) :
    machine.trail (cycles + 1) start = machine.trail cycles start ++ (machine.decode state).toList := by
  induction cycles generalizing start with
  | zero =>
      rw [after?_zero, Option.some.injEq] at reached
      subst reached
      cases decoded : machine.decode start <;> simp [trail, decoded]
  | succ cycles inductionHypothesis =>
      obtain ⟨second, goesOn, later⟩ := Option.bind_eq_some_iff.1 reached
      rw [trail_of_next? goesOn, trail_of_next? goesOn, inductionHypothesis later, List.append_assoc]

theorem after?_sub {first last : Nat} {middle : State Registers}
    (begun : machine.after? first start = some middle) (ordered : first ≤ last) :
    machine.after? (last - first) middle = machine.after? last start := by
  obtain ⟨rest, rfl⟩ := Nat.exists_eq_add_of_le ordered
  rw [after?_add, begun, Option.bind_some, Nat.add_sub_cancel_left]

/-- Cycles in a row that start in states of a kind, from the first of them to a later one. The cycle
before the first starts in another state, if there is one. -/
structure Stretch (machine : Machine Op Registers) (start : State Registers)
    (Holds : State Registers → Prop) (first last : Nat) (entered : State Registers) : Prop where
  ordered : first ≤ last
  entered : machine.after? first start = some entered
  begins : first = 0 ∨ ∃ before, machine.after? (first - 1) start = some before ∧ ¬ Holds before
  holds : ∀ cycles, first ≤ cycles → cycles ≤ last →
    ∃ state, machine.after? cycles start = some state ∧ Holds state

section Stretch

variable {Holds : State Registers → Prop} {first last : Nat} {entered : State Registers}

theorem Stretch.single (reached : machine.after? cycles start = some state)
    (begins : cycles = 0 ∨ ∃ before, machine.after? (cycles - 1) start = some before ∧ ¬ Holds before)
    (holds : Holds state) : machine.Stretch start Holds cycles cycles state where
  ordered := Nat.le_refl _
  entered := reached
  begins := begins
  holds := by
    intro cycle after before
    cases Nat.le_antisymm before after
    exact ⟨state, reached, holds⟩

theorem Stretch.extend (stretch : machine.Stretch start Holds first last entered)
    (reached : machine.after? (last + 1) start = some next) (holds : Holds next) :
    machine.Stretch start Holds first (last + 1) entered where
  ordered := Nat.le_succ_of_le stretch.ordered
  entered := stretch.entered
  begins := stretch.begins
  holds := by
    intro cycle after before
    rcases Nat.lt_or_eq_of_le before with earlier | rfl
    · exact stretch.holds cycle after (by omega)
    · exact ⟨next, reached, holds⟩

/-- The instructions of a stretch, one after the other. -/
theorem Stretch.trail_succ (stretch : machine.Stretch start Holds first last entered)
    (reached : machine.after? last start = some state) :
    machine.trail (last + 1 - first) entered =
      machine.trail (last - first) entered ++ (machine.decode state).toList := by
  have later := (after?_sub stretch.entered stretch.ordered).trans reached
  rw [Nat.succ_sub stretch.ordered, Machine.trail_succ later]

end Stretch

/-- After some cycles that count, the program is in a state: the one that these cycles lead to, or the one
that is left by a failing cycle after them. -/
inductive Visits (machine : Machine Op Registers) (start : State Registers) (cycles : Nat) :
    State Registers → Prop where
  | reached {state : State Registers} (reached : machine.Reaches start cycles state) :
      Visits machine start cycles state
  | failed {state : State Registers} (reached : machine.Reaches start cycles state)
      (running : state.ending = none) (fails : (machine.step state).fault.isSome) :
      Visits machine start cycles (machine.step state).state

theorem Reaches.unique {other : State Registers} (reached : machine.Reaches start cycles state)
    (reachedToo : machine.Reaches start cycles other) : state = other := by
  induction reached generalizing other with
  | start =>
      cases reachedToo
      rfl
  | cycle _ _ stepped inductionHypothesis =>
      obtain _ | ⟨earlier, _, steppedToo⟩ := reachedToo
      cases inductionHypothesis earlier
      rw [stepped] at steppedToo
      cases steppedToo
      rfl

/-- A state on the way to another leads to it. -/
theorem Reaches.drop {first : Nat} {middle : State Registers}
    (reached : machine.Reaches start cycles state) (begun : machine.Reaches start first middle)
    (ordered : first ≤ cycles) : machine.Reaches middle (cycles - first) state := by
  induction reached with
  | start =>
      cases Nat.le_zero.1 ordered
      cases begun
      exact .start
  | @cycle cycles state next reached running stepped inductionHypothesis =>
      rcases Nat.lt_or_eq_of_le ordered with earlier | rfl
      · rw [Nat.succ_sub (by omega)]
        exact .cycle (inductionHypothesis (by omega)) running stepped
      · rw [Nat.sub_self, begun.unique (.cycle reached running stepped)]
        exact .start

theorem Visits.drop {first : Nat} {middle : State Registers}
    (visited : machine.Visits start cycles state) (begun : machine.Reaches start first middle)
    (ordered : first ≤ cycles) : machine.Visits middle (cycles - first) state := by
  cases visited with
  | reached reached => exact .reached (reached.drop begun ordered)
  | failed reached running fails => exact .failed (reached.drop begun ordered) running fails

/-- What holds at first and is kept by every cycle, also by one that fails, holds of all states. -/
theorem Visits.invariant (visited : machine.Visits start cycles state)
    (Holds : State Registers → Prop) (initially : Holds start)
    (kept : ∀ state, state.ending = none → Holds state → Holds (machine.step state).state) :
    Holds state := by
  have onTheWay {cycles : Nat} {state : State Registers}
      (reached : machine.Reaches start cycles state) : Holds state := by
    induction reached with
    | start => exact initially
    | cycle _ running stepped inductionHypothesis =>
        have next := kept _ running inductionHypothesis
        rwa [stepped] at next
  cases visited with
  | reached reached => exact onTheWay reached
  | failed reached running _ => exact kept _ running (onTheWay reached)

/-- All states but the first are left by a cycle. -/
theorem Visits.stepped (visited : machine.Visits start cycles state) (positive : 0 < cycles) :
    ∃ before, before.ending = none ∧ (machine.step before).state = state := by
  cases visited with
  | reached reached =>
      cases reached with
      | start => exact (Nat.lt_irrefl 0 positive).elim
      | @cycle _ before _ _ running stepped => exact ⟨before, running, by rw [stepped]⟩
  | @failed before _ running _ => exact ⟨before, running, rfl⟩

end Esoterica.Machine
