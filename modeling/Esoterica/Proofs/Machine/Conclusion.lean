import Esoterica.Proofs.Machine.Cycles

/-!
How a run under limits comes to its end. It goes through the cycles of its program as long as the
output has room, and stops in one of five ways: in a cycle that fails, with the program, or at one of
the three limits.
-/

namespace Esoterica.Machine

variable {Op Registers : Type} {machine : Machine Op Registers}

/-- The program goes on for some cycles, and after each of them there is room for more output. -/
structure Proceeds (machine : Machine Op Registers) (start : State Registers) (cycles : Nat)
    (last : State Registers) : Prop where
  reaches : machine.after? cycles start = some last
  room : ∀ earlier state, 0 < earlier → earlier ≤ cycles →
    machine.after? earlier start = some state → state.output.length < machine.options.maxOutput

/-- A run on an input, as long as its time is not up, makes some cycles and begins another one in this
state. -/
def Begins (machine : Machine Op Registers) (input : String) (cycles : Nat)
    (state : State Registers) : Prop :=
  machine.Proceeds (machine.initial input) cycles state ∧ cycles < machine.options.maxCycles

/-- The ends of a run. Whether the time may have run out is a matter of the host. -/
inductive Concludes (machine : Machine Op Registers) (late : Prop) (start : State Registers) :
    Finish Registers → Prop where
  | failed {cycles : Nat} {last : State Registers} {fault : Error}
      (proceeds : machine.Proceeds start cycles last) (within : cycles < machine.options.maxCycles)
      (fails : (machine.step last).fault = some fault) :
      Concludes machine late start ⟨(machine.step last).state, cycles, some fault⟩
  | ended {cycles : Nat} {last : State Registers}
      (proceeds : machine.Proceeds start cycles last) (within : cycles < machine.options.maxCycles)
      (succeeds : (machine.step last).fault = none) (done : (machine.step last).state.done) :
      Concludes machine late start ⟨(machine.step last).state, cycles + 1, none⟩
  | cyclesUsed {cycles : Nat} {last next : State Registers}
      (proceeds : machine.Proceeds start cycles last) (goesOn : machine.next? last = some next)
      (all : cycles + 1 = machine.options.maxCycles) :
      Concludes machine late start
        ⟨next, cycles + 1, some (limitFault (.exceededCycles machine.options.maxCycles))⟩
  | timeUsed {cycles : Nat} {last next : State Registers}
      (proceeds : machine.Proceeds start cycles last) (goesOn : machine.next? last = some next)
      (within : cycles + 1 < machine.options.maxCycles) (isLate : late) :
      Concludes machine late start
        ⟨next, cycles + 1, some (limitFault (.exceededTime machine.options.maxTime))⟩
  | outputFull {cycles : Nat} {last next : State Registers}
      (proceeds : machine.Proceeds start cycles last) (goesOn : machine.next? last = some next)
      (within : cycles + 1 < machine.options.maxCycles)
      (full : machine.options.maxOutput ≤ next.output.length) :
      Concludes machine late start
        ⟨next, cycles + 1, some (limitFault (.outputTooLong machine.options.maxOutput))⟩

section Drive

variable {m : Type → Type} [Monad m] {timeUp : m Bool} {state next : State Registers}
  {cycles more : Nat}

/-- The last cycle counts unless it fails. -/
theorem driveWith_last (final : machine.next? state = none) :
    machine.driveWith timeUp state cycles more =
      pure ⟨(machine.step state).state,
        if (machine.step state).fault.isSome then cycles else cycles + 1,
        (machine.step state).fault⟩ := by
  rw [driveWith.eq_def]
  cases fails : (machine.step state).fault with
  | some fault => simp [fails]
  | none =>
      have done : (machine.step state).state.done := by
        simpa [fails] using next?_eq_none_iff.1 final
      simp [fails, done]

theorem driveWith_zero (goesOn : machine.next? state = some next) :
    machine.driveWith timeUp state cycles 0 =
      pure ⟨next, cycles + 1, some (limitFault (.exceededCycles machine.options.maxCycles))⟩ := by
  obtain ⟨stepped, running⟩ := next?_eq_some_iff.1 goesOn
  simp [driveWith, stepped, State.done, running]

theorem driveWith_succ (goesOn : machine.next? state = some next) :
    machine.driveWith timeUp state cycles (more + 1) = (timeUp >>= fun up =>
      if up then
        pure ⟨next, cycles + 1, some (limitFault (.exceededTime machine.options.maxTime))⟩
      else if machine.options.maxOutput ≤ next.output.length then
        pure ⟨next, cycles + 1, some (limitFault (.outputTooLong machine.options.maxOutput))⟩
      else machine.driveWith timeUp next (cycles + 1) more) := by
  obtain ⟨stepped, running⟩ := next?_eq_some_iff.1 goesOn
  rw [driveWith.eq_def]
  simp [stepped, State.done, running]

end Drive

theorem Proceeds.start (start : State Registers) : machine.Proceeds start 0 start where
  reaches := rfl
  room := by
    intro earlier state positive none
    omega

theorem Proceeds.next {start last next : State Registers} {cycles : Nat}
    (proceeds : machine.Proceeds start cycles last) (goesOn : machine.next? last = some next)
    (room : next.output.length < machine.options.maxOutput) :
    machine.Proceeds start (cycles + 1) next where
  reaches := by rw [after?_add, proceeds.reaches, Option.bind_some, after?_one, goesOn]
  room := by
    intro earlier state positive within reached
    rcases Nat.lt_or_eq_of_le within with before | rfl
    · exact proceeds.room earlier state positive (by omega) reached
    · rw [after?_add, proceeds.reaches, Option.bind_some, after?_one, goesOn,
        Option.some.injEq] at reached
      exact reached ▸ room

theorem Proceeds.prepend {start next last : State Registers} {cycles : Nat}
    (goesOn : machine.next? start = some next)
    (room : next.output.length < machine.options.maxOutput)
    (proceeds : machine.Proceeds next cycles last) : machine.Proceeds start (cycles + 1) last where
  reaches := by rw [after?_succ, goesOn, Option.bind_some, proceeds.reaches]
  room := by
    intro earlier state positive within reached
    obtain ⟨earlier, rfl⟩ := Nat.exists_eq_add_one.2 positive
    rw [after?_succ, goesOn, Option.bind_some] at reached
    rcases Nat.eq_zero_or_pos earlier with rfl | positive
    · rw [after?_zero, Option.some.injEq] at reached
      exact reached ▸ room
    · exact proceeds.room earlier state positive (by omega) reached

/-- The state before the last of some cycles. -/
theorem Proceeds.before {start next : State Registers} {cycles : Nat}
    (proceeds : machine.Proceeds start (cycles + 1) next) :
    ∃ last, machine.Proceeds start cycles last ∧ machine.next? last = some next ∧
      next.output.length < machine.options.maxOutput := by
  have reached := proceeds.reaches
  rw [after?_add, Option.bind_eq_some_iff] at reached
  obtain ⟨last, reached, goesOn⟩ := reached
  refine ⟨last, ⟨reached, fun earlier state positive within => ?_⟩, after?_one ▸ goesOn,
    proceeds.room _ next (by omega) (Nat.le_refl _) proceeds.reaches⟩
  exact proceeds.room earlier state positive (by omega)

section Host

variable {Host : Type} {timeUp : StateM Host Bool} {late : Prop} {start last : State Registers}
  {cycles : Nat}

/-- A run from the state before the last cycle comes to its end in this cycle. -/
theorem concludes_of_next?_eq_none (proceeds : machine.Proceeds start cycles last)
    (within : cycles < machine.options.maxCycles) (final : machine.next? last = none) (more : Nat)
    (host : Host) :
    machine.Concludes late start ((machine.driveWith timeUp last cycles more).run host).run.1 := by
  rw [driveWith_last final]
  cases fails : (machine.step last).fault with
  | some fault => exact .failed proceeds within fails
  | none =>
      refine .ended proceeds within fails ?_
      simpa [fails] using next?_eq_none_iff.1 final

/-- A run from any state that its program reaches comes to one of the ends, whatever the host does to
find out how late it is. -/
theorem concludes_driveWith (tellsLate : ∀ host, (timeUp.run host).run.1 = true → late) {more : Nat}
    (proceeds : machine.Proceeds start cycles last)
    (rest : cycles + more + 1 = machine.options.maxCycles) (host : Host) :
    machine.Concludes late start ((machine.driveWith timeUp last cycles more).run host).run.1 := by
  induction more generalizing last cycles host with
  | zero =>
      cases goesOn : machine.next? last with
      | none => exact concludes_of_next?_eq_none proceeds (by omega) goesOn 0 host
      | some next =>
          rw [driveWith_zero goesOn]
          exact .cyclesUsed proceeds goesOn rest
  | succ more inductionHypothesis =>
      cases goesOn : machine.next? last with
      | none => exact concludes_of_next?_eq_none proceeds (by omega) goesOn (more + 1) host
      | some next =>
          rw [driveWith_succ goesOn, StateT.run_bind, Id.run_bind]
          cases up : (timeUp.run host).run.1 with
          | true => exact .timeUsed proceeds goesOn (by omega) (tellsLate host up)
          | false =>
              by_cases full : machine.options.maxOutput ≤ next.output.length
              · simp only [Bool.false_eq_true, full, if_true, if_false]
                exact .outputFull proceeds goesOn (by omega) full
              · simp only [Bool.false_eq_true, full, if_false]
                exact inductionHypothesis (proceeds.next goesOn (by omega)) (by omega) _

theorem concludes_runWith (tellsLate : ∀ host, (timeUp.run host).run.1 = true → late)
    (valid : machine.options.Valid) (input : String) (host : Host) :
    machine.Concludes late (machine.initial input) ((machine.runWith timeUp input).run host).run.1 := by
  have positive : 1 ≤ machine.options.maxCycles := valid.2.1
  exact concludes_driveWith tellsLate (.start _) (by omega) host

end Host

/-- With all the time in the world, every host sees the same run. -/
theorem driveWith_pure_false {m : Type → Type} [Monad m] [LawfulMonad m] (state : State Registers)
    (cycles more : Nat) :
    machine.driveWith (pure false : m Bool) state cycles more =
      pure (machine.driveWith (pure false : Id Bool) state cycles more).run := by
  induction more generalizing state cycles with
  | zero =>
      cases goesOn : machine.next? state with
      | none => rw [driveWith_last goesOn, driveWith_last goesOn, Id.run_pure]
      | some next => rw [driveWith_zero goesOn, driveWith_zero goesOn, Id.run_pure]
  | succ more inductionHypothesis =>
      cases goesOn : machine.next? state with
      | none => rw [driveWith_last goesOn, driveWith_last goesOn, Id.run_pure]
      | some next =>
          rw [driveWith_succ goesOn, driveWith_succ goesOn, pure_bind, pure_bind]
          by_cases full : machine.options.maxOutput ≤ next.output.length
          · simp [full]
          · simp only [Bool.false_eq_true, full, if_false]
            exact inductionHypothesis next (cycles + 1)

/-- The state after the first of some cycles. -/
theorem Proceeds.first {start last : State Registers} {cycles : Nat}
    (proceeds : machine.Proceeds start (cycles + 1) last) :
    ∃ next, machine.next? start = some next ∧ next.output.length < machine.options.maxOutput ∧
      machine.Proceeds next cycles last := by
  have reached := proceeds.reaches
  rw [after?_succ, Option.bind_eq_some_iff] at reached
  obtain ⟨next, goesOn, reached⟩ := reached
  have onward (earlier : Nat) : machine.after? (earlier + 1) start = machine.after? earlier next := by
    rw [after?_succ, goesOn, Option.bind_some]
  refine ⟨next, goesOn, ?_, reached, fun earlier state positive within reaches => ?_⟩
  · exact proceeds.room 1 next Nat.one_pos (by omega) (after?_one.trans goesOn)
  · exact proceeds.room (earlier + 1) state (by omega) (by omega) ((onward earlier).trans reaches)

/-- A clock stops a run after some of these cycles. -/
structure TimedOut {Host : Type} (machine : Machine Op Registers) (timeUp : StateM Host Bool)
    (input : String) (most : Nat) (finish : Finish Registers) : Prop where
  up : ∃ moment, (timeUp.run moment).run.1 = true
  fault : finish.fault = some (limitFault (.exceededTime machine.options.maxTime))
  reached : machine.after? finish.cycles (machine.initial input) = some finish.state
  early : finish.cycles ≤ most

section Clock

variable {Host : Type} (timeUp : StateM Host Bool) {last final : State Registers} {made : Nat}
  (stepped : machine.step last = ⟨final, none⟩) (done : final.done)

include stepped done

/-- Where a program is known to end, its run ends there too, or a clock stops it before. -/
theorem Proceeds.driveWith {start : State Registers} (proceeds : machine.Proceeds start made last)
    {more : Nat} (within : made ≤ more) (cycles : Nat) (host : Host) :
    let finish := ((machine.driveWith timeUp start cycles more).run host).run.1
    finish = ⟨final, cycles + made + 1, none⟩ ∨
      (∃ moment, (timeUp.run moment).run.1 = true) ∧ ∃ passed state, passed ≤ made ∧
        machine.after? passed start = some state ∧ finish =
          ⟨state, cycles + passed, some (limitFault (.exceededTime machine.options.maxTime))⟩ := by
  induction made generalizing start cycles more host with
  | zero =>
      cases proceeds.reaches
      have ends : machine.next? last = none := by
        rw [next?_eq_none_iff, stepped]
        exact .inr done
      rw [driveWith_last ends, stepped]
      exact .inl rfl
  | succ made inductionHypothesis =>
      obtain ⟨next, goesOn, room, rest⟩ := proceeds.first
      obtain ⟨fewer, rfl⟩ := Nat.exists_eq_add_one.2 (Nat.lt_of_lt_of_le (Nat.succ_pos made) within)
      rw [driveWith_succ goesOn, StateT.run_bind, Id.run_bind]
      cases up : (timeUp.run host).run.1 with
      | true => exact .inr ⟨⟨host, up⟩, 1, next, by omega, after?_one.trans goesOn, rfl⟩
      | false =>
          simp only [Bool.false_eq_true, Nat.not_le.2 room, if_false]
          have fewerWithin := Nat.le_of_succ_le_succ within
          rcases inductionHypothesis rest fewerWithin (cycles + 1) (timeUp.run host).run.2 with
            ended | ⟨late, passed, state, before, reached, stopped⟩
          · refine .inl (ended.trans ?_)
            rw [Nat.add_assoc cycles, Nat.add_comm 1]
          · refine .inr ⟨late, passed + 1, state, by omega, ?_, stopped.trans ?_⟩
            · rw [after?_succ, goesOn, Option.bind_some, reached]
            · rw [Nat.add_assoc cycles, Nat.add_comm 1]

/-- A run with enough cycles ends with its program, unless a clock stops it before. -/
theorem Proceeds.runWith {input : String}
    (proceeds : machine.Proceeds (machine.initial input) made last)
    (within : made < machine.options.maxCycles) (host : Host) :
    let finish := ((machine.runWith timeUp input).run host).run.1
    finish = ⟨final, made + 1, none⟩ ∨ machine.TimedOut timeUp input made finish := by
  intro finish
  rcases proceeds.driveWith timeUp stepped done (Nat.le_sub_one_of_lt within) 0 host with
    ended | ⟨up, passed, state, before, reached, stopped⟩
  · rw [Nat.zero_add] at ended
    exact .inl ended
  · rw [Nat.zero_add] at stopped
    have stopped : finish = _ := stopped
    rw [stopped]
    exact .inr ⟨up, rfl, reached, before⟩

end Clock

/-- With all the time it needs, a run with enough cycles ends with its program. -/
theorem Proceeds.finish_eq {input : String} {last final : State Registers} {made : Nat}
    (proceeds : machine.Proceeds (machine.initial input) made last)
    (within : made < machine.options.maxCycles) (stepped : machine.step last = ⟨final, none⟩)
    (done : final.done) : machine.finish input = ⟨final, made + 1, none⟩ := by
  have ran := proceeds.runWith (pure false : StateM Unit Bool) stepped done within ()
  rw [Machine.runWith, driveWith_pure_false] at ran
  rcases ran with ended | late
  · exact ended
  · obtain ⟨moment, up⟩ := late.up
    cases up

/-- A run with all the time it needs comes to one of the other ends. -/
theorem concludes_finish (valid : machine.options.Valid) (input : String) :
    machine.Concludes False (machine.initial input) (machine.finish input) := by
  have never : ∀ host, ((pure false : StateM Unit Bool).run host).run.1 = true → False := by simp
  have concludes := concludes_runWith never valid input ()
  rw [runWith, driveWith_pure_false] at concludes
  exact concludes

end Esoterica.Machine
