import Esoterica.Proofs.Machine.Conclusion

/-!
What limits do to a run. A machine only ever adds to its output, and no cycle depends on a limit. So a
run under wider limits is the same run, or it goes on where the narrower limits cut it short.
-/

namespace Esoterica

/-- What a cycle does to the output: nothing, or it writes one character, or one number. Machines that
write numbers have a text that ends each of them. -/
inductive Output.Grows (numberEnd : Option String) (before : Output) : Output → Prop where
  | silent : Grows numberEnd before before
  | character (code : Word) : Grows numberEnd before (before.writeCode code)
  | number (value : Word) {ending : String} (ends : numberEnd = some ending) :
      Grows numberEnd before (before.writeText (value.text ++ ending))

theorem Output.Grows.of_eq {numberEnd : Option String} {before after : Output}
    (same : after = before) : before.Grows numberEnd after := by
  rw [same]
  exact .silent

theorem Output.Grows.bareNumber {before : Output} (value : Word) :
    before.Grows (some "") (before.writeText value.text) := by
  have grows : before.Grows (some "") (before.writeText (value.text ++ "")) := .number value rfl
  rwa [String.append_empty] at grows

theorem Output.Grows.isPrefix {numberEnd : Option String} {before after : Output}
    (grows : before.Grows numberEnd after) : before.text.toList <+: after.text.toList := by
  cases grows with
  | silent => exact List.prefix_rfl
  | character code => simp [text, writeCode, writeChar]
  | number value ends => simp [text, writeText]

/-- A limit stopped the run, and the whole run goes on from there. -/
structure Finish.CutShortOf {Registers : Type} (finish whole : Finish Registers) : Prop where
  limit : ∃ fault, finish.fault = some fault ∧ fault.kind.isLimit
  output : finish.state.output.text.toList <+: whole.state.output.text.toList
  cycles : finish.cycles ≤ whole.cycles

namespace Machine

variable {Op Registers : Type} {machine wider : Machine Op Registers} {numberEnd : Option String}
  {state next : State Registers}

/-- Every cycle adds at most one character or one number to the output. -/
def Writes (machine : Machine Op Registers) (numberEnd : Option String) : Prop :=
  ∀ state : State Registers, state.output.Grows numberEnd (machine.step state).state.output

theorem writes_of_execute
    (executed : ∀ (op : Op) (state : State Registers),
      state.output.Grows numberEnd (machine.execute op state).state.output)
    (advanced : ∀ op state, (machine.advance op state).output = state.output) :
    machine.Writes numberEnd := by
  intro state
  unfold step
  cases machine.decode state with
  | none => exact .silent
  | some op =>
      simp only
      split
      · rw [advanced]
        exact executed op state
      · exact executed op state

/-- What has been written stays in front of what is written later. -/
theorem Writes.isPrefix_after? (writes : machine.Writes numberEnd) {cycles : Nat}
    {later : State Registers} (reached : machine.after? cycles state = some later) :
    state.output.text.toList <+: later.output.text.toList := by
  induction cycles generalizing state with
  | zero =>
      cases reached
      exact List.prefix_rfl
  | succ cycles inductionHypothesis =>
      obtain ⟨next, goesOn, reached⟩ := Option.bind_eq_some_iff.1 reached
      have written := (writes state).isPrefix
      rw [(next?_eq_some_iff.1 goesOn).1] at written
      exact written.trans (inductionHypothesis reached)

/-- Whatever stops a run, it has counted its first cycle and kept what was written in it. -/
theorem Writes.driveWith (writes : machine.Writes numberEnd) (goesOn : machine.next? state = some next)
    (cycles more : Nat) :
    let finish := (machine.driveWith (pure false : Id Bool) state cycles more).run
    next.output.text.toList <+: finish.state.output.text.toList ∧ cycles + 1 ≤ finish.cycles := by
  induction more generalizing state next cycles with
  | zero =>
      rw [driveWith_zero goesOn]
      exact ⟨List.prefix_rfl, Nat.le_refl _⟩
  | succ more inductionHypothesis =>
      rw [driveWith_succ goesOn, pure_bind]
      by_cases full : machine.options.maxOutput ≤ next.output.length
      · simp only [Bool.false_eq_true, full, if_true, if_false]
        exact ⟨List.prefix_rfl, Nat.le_refl _⟩
      · simp only [Bool.false_eq_true, full, if_false]
        have written := (writes next).isPrefix
        cases later : machine.next? next with
        | none =>
            rw [driveWith_last later]
            refine ⟨written, ?_⟩
            simp only [Id.run_pure]
            split <;> omega
        | some following =>
            obtain ⟨output, counted⟩ := inductionHypothesis later (cycles + 1)
            rw [(next?_eq_some_iff.1 later).1] at written
            exact ⟨written.trans output, by omega⟩

theorem next?_eq_of_step (stepped : wider.step state = machine.step state) :
    wider.next? state = machine.next? state := by
  rw [next?, next?, stepped]

/-- No limit is looked at in the last cycle. -/
theorem driveWith_last_eq_of_step (stepped : wider.step state = machine.step state)
    (final : machine.next? state = none) (cycles more most : Nat) :
    wider.driveWith (pure false : Id Bool) state cycles most =
      machine.driveWith (pure false : Id Bool) state cycles more := by
  have finalToo := (next?_eq_of_step stepped).trans final
  rw [driveWith_last final, driveWith_last finalToo, stepped]

/-- A run under wider limits is the same, or it goes on where the narrower limits stop. -/
theorem Writes.driveWith_widened (writes : machine.Writes numberEnd)
    (steps : ∀ state, wider.step state = machine.step state)
    (outputs : machine.options.maxOutput ≤ wider.options.maxOutput) (state : State Registers)
    (cycles : Nat) {more most : Nat} (longer : more ≤ most) :
    let finish := (machine.driveWith (pure false : Id Bool) state cycles more).run
    let whole := (wider.driveWith (pure false : Id Bool) state cycles most).run
    whole = finish ∨ finish.CutShortOf whole := by
  have widerWrites : wider.Writes numberEnd := by
    intro state
    rw [steps]
    exact writes state
  -- As long as neither limit stops the narrower run, both runs go through the same cycles.
  induction more generalizing state cycles most with
  | zero =>
      cases goesOn : machine.next? state with
      | none =>
          have same := driveWith_last_eq_of_step (steps state) goesOn cycles 0 most
          exact .inl (congrArg Id.run same)
      | some next =>
          have goesOnToo := (next?_eq_of_step (steps state)).trans goesOn
          obtain ⟨output, counted⟩ := widerWrites.driveWith goesOnToo cycles most
          rw [driveWith_zero goesOn]
          exact .inr ⟨⟨_, rfl, rfl⟩, output, counted⟩
  | succ more inductionHypothesis =>
      cases goesOn : machine.next? state with
      | none =>
          have same := driveWith_last_eq_of_step (steps state) goesOn cycles (more + 1) most
          exact .inl (congrArg Id.run same)
      | some next =>
          have goesOnToo := (next?_eq_of_step (steps state)).trans goesOn
          obtain ⟨output, counted⟩ := widerWrites.driveWith goesOnToo cycles most
          rw [driveWith_succ goesOn, pure_bind]
          by_cases full : machine.options.maxOutput ≤ next.output.length
          · simp only [Bool.false_eq_true, full, if_true, if_false]
            exact .inr ⟨⟨_, rfl, rfl⟩, output, counted⟩
          · obtain ⟨rest, rfl⟩ := Nat.exists_eq_add_of_le' longer
            rw [← Nat.add_assoc, driveWith_succ goesOnToo, pure_bind]
            have room : ¬ wider.options.maxOutput ≤ next.output.length := by omega
            simp only [Bool.false_eq_true, full, room, if_false]
            exact inductionHypothesis next (cycles + 1) (Nat.le_add_left more rest)

theorem Writes.finish_widened (writes : machine.Writes numberEnd)
    (steps : ∀ state, wider.step state = machine.step state) (starts : wider.start = machine.start)
    (cycles : machine.options.maxCycles ≤ wider.options.maxCycles)
    (outputs : machine.options.maxOutput ≤ wider.options.maxOutput) (input : String) :
    wider.finish input = machine.finish input ∨
      (machine.finish input).CutShortOf (wider.finish input) := by
  have same : wider.initial input = machine.initial input := by
    rw [initial, initial, starts]
  rw [finish, finish, runWith, runWith, same]
  exact writes.driveWith_widened steps outputs _ 0 (Nat.sub_le_sub_right cycles 1)

/-- The result of a run under wider limits is the same, or it carries on the narrower one. -/
theorem Writes.conclude_widened (writes : machine.Writes numberEnd) (wider : Machine Op Registers)
    (steps : ∀ state, wider.step state = machine.step state) (starts : wider.start = machine.start)
    (cycles : machine.options.maxCycles ≤ wider.options.maxCycles)
    (outputs : machine.options.maxOutput ≤ wider.options.maxOutput) (input : String) :
    let run := machine.conclude (machine.finish input) 0
    let whole := wider.conclude (wider.finish input) 0
    (whole.output = run.output ∧ whole.fault = run.fault ∧ whole.cycles = run.cycles) ∨
      (∃ fault, run.fault = some fault ∧ fault.kind.isLimit = true) ∧
        run.output.toList <+: whole.output.toList ∧ run.cycles ≤ whole.cycles := by
  rcases writes.finish_widened steps starts cycles outputs input with same | cut
  · exact .inl (by simp [conclude, same])
  · exact .inr ⟨cut.limit, cut.output, cut.cycles⟩

end Machine

end Esoterica
