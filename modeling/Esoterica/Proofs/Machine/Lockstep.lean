import Esoterica.Proofs.Machine.Conclusion
import Esoterica.Proofs.Machine.Reaches

/-!
Two machines in lockstep: they go through states that correspond to each other, so that their runs come
to the same end under the same limits, whatever the host does.
-/

namespace Esoterica

/-- What is seen of a run that has ended, if only a part of its state is looked at. -/
def Finish.seen {Registers View : Type} (view : State Registers → View) (finish : Finish Registers) :
    View × Nat × Option Error :=
  (view finish.state, finish.cycles, finish.fault)

namespace Machine

variable {Op Registers OtherOp OtherRegisters : Type}

/-- Machines under the same limits, and states of theirs that show the same output and have both ended
or not. -/
structure Comparable (machine : Machine Op Registers) (other : Machine OtherOp OtherRegisters)
    (Corresponds : State Registers → State OtherRegisters → Prop) : Prop where
  maxCycles : machine.options.maxCycles = other.options.maxCycles
  maxTime : machine.options.maxTime = other.options.maxTime
  maxOutput : machine.options.maxOutput = other.options.maxOutput
  ending : ∀ {state partner}, Corresponds state partner → state.ending = partner.ending
  output : ∀ {state partner}, Corresponds state partner → state.output = partner.output

/-- One cycle leads to corresponding states with the same fault. -/
structure InStep (machine : Machine Op Registers) (other : Machine OtherOp OtherRegisters)
    (Corresponds : State Registers → State OtherRegisters → Prop) (state : State Registers)
    (partner : State OtherRegisters) : Prop where
  fault : (machine.step state).fault = (other.step partner).fault
  step : Corresponds (machine.step state).state (other.step partner).state

/-- Corresponding states have the same output and have both ended or not, and one cycle leads to
corresponding states with the same fault. -/
structure Lockstep (machine : Machine Op Registers) (other : Machine OtherOp OtherRegisters)
    (Corresponds : State Registers → State OtherRegisters → Prop) : Prop
    extends Comparable machine other Corresponds where
  fault : ∀ {state partner}, Corresponds state partner → state.ending = none →
    (machine.step state).fault = (other.step partner).fault
  step : ∀ {state partner}, Corresponds state partner → state.ending = none →
    Corresponds (machine.step state).state (other.step partner).state

variable {machine : Machine Op Registers} {other : Machine OtherOp OtherRegisters}
  {Corresponds : State Registers → State OtherRegisters → Prop}
  {state next : State Registers} {partner : State OtherRegisters}

/-- A cycle that does not fail leads to corresponding states. -/
theorem InStep.stepped (inStep : machine.InStep other Corresponds state partner)
    (stepped : machine.step state = ⟨next, none⟩) :
    ∃ partnerNext, other.step partner = ⟨partnerNext, none⟩ ∧ Corresponds next partnerNext := by
  have sameFault := inStep.fault
  have correspondNext := inStep.step
  rw [stepped] at sameFault correspondNext
  rcases otherStepped : other.step partner with ⟨partnerNext, fault⟩
  rw [otherStepped] at sameFault correspondNext
  simp only at sameFault
  exact ⟨partnerNext, by rw [← sameFault], correspondNext⟩

/-- A cycle is the last one of both machines or of neither. -/
theorem InStep.next? (inStep : machine.InStep other Corresponds state partner)
    (comparable : machine.Comparable other Corresponds) :
    (machine.next? state = none ∧ other.next? partner = none) ∨
      ∃ next partnerNext, machine.next? state = some next ∧
        other.next? partner = some partnerNext ∧ Corresponds next partnerNext := by
  cases goesOn : machine.next? state with
  | none =>
      have sameFault := inStep.fault
      have sameEnding := comparable.ending inStep.step
      rw [next?_eq_none_iff] at goesOn
      refine .inl ⟨rfl, next?_eq_none_iff.2 ?_⟩
      simpa [State.done, ← sameFault, ← sameEnding] using goesOn
  | some next =>
      obtain ⟨stepped, continues⟩ := next?_eq_some_iff.1 goesOn
      obtain ⟨partnerNext, otherStepped, correspondNext⟩ := inStep.stepped stepped
      have otherContinues := (comparable.ending correspondNext).symm.trans continues
      exact .inr ⟨next, partnerNext, rfl, next?_eq_some_iff.2 ⟨otherStepped, otherContinues⟩,
        correspondNext⟩

theorem Lockstep.inStep (lockstep : machine.Lockstep other Corresponds)
    (corresponds : Corresponds state partner) (running : state.ending = none) :
    machine.InStep other Corresponds state partner :=
  ⟨lockstep.fault corresponds running, lockstep.step corresponds running⟩

theorem Lockstep.reaches (lockstep : machine.Lockstep other Corresponds) {cycles : Nat}
    {last : State Registers} (corresponds : Corresponds state partner)
    (reached : machine.Reaches state cycles last) :
    ∃ partnerLast, other.Reaches partner cycles partnerLast ∧ Corresponds last partnerLast := by
  induction reached with
  | start => exact ⟨partner, .start, corresponds⟩
  | cycle _ running stepped inductionHypothesis =>
      obtain ⟨partnerBefore, partnerReached, correspond⟩ := inductionHypothesis
      obtain ⟨partnerNext, otherStepped, correspondNext⟩ :=
        (lockstep.inStep correspond running).stepped stepped
      have otherRunning := (lockstep.ending correspond).symm.trans running
      exact ⟨partnerNext, .cycle partnerReached otherRunning otherStepped, correspondNext⟩

section Proceeds

variable (comparable : machine.Comparable other Corresponds) (corresponds : Corresponds state partner)
  {made : Nat} (inStep : ∀ {earlier last lastPartner}, earlier < made →
    machine.Proceeds state earlier last → Corresponds last lastPartner →
      machine.InStep other Corresponds last lastPartner)

include comparable corresponds inStep

/-- As long as the machines are in step, the second one goes where the first one goes. -/
theorem Comparable.proceeds {last : State Registers} (proceeds : machine.Proceeds state made last) :
    ∃ partnerLast, other.Proceeds partner made partnerLast ∧ Corresponds last partnerLast := by
  induction made generalizing last with
  | zero =>
      cases proceeds.reaches
      exact ⟨partner, .start partner, corresponds⟩
  | succ made inductionHypothesis =>
      obtain ⟨before, proceeds, goesOn, room⟩ := proceeds.before
      obtain ⟨partnerBefore, otherProceeds, correspond⟩ :=
        inductionHypothesis (fun earlier => inStep (Nat.lt_succ_of_lt earlier)) proceeds
      rcases (inStep (Nat.lt_succ_self _) proceeds correspond).next? comparable with
        ⟨final, _⟩ | ⟨next, partnerNext, goesOnToo, otherGoesOn, correspondNext⟩
      · simp [final] at goesOn
      · cases goesOn.symm.trans goesOnToo
        rw [comparable.output correspondNext, comparable.maxOutput] at room
        exact ⟨partnerNext, otherProceeds.next otherGoesOn room, correspondNext⟩

/-- As long as the machines are in step, the second one goes nowhere else. -/
theorem Comparable.proceeds_back {partnerLast : State OtherRegisters}
    (otherProceeds : other.Proceeds partner made partnerLast) :
    ∃ last, machine.Proceeds state made last ∧ Corresponds last partnerLast := by
  induction made generalizing partnerLast with
  | zero =>
      cases otherProceeds.reaches
      exact ⟨state, .start state, corresponds⟩
  | succ made inductionHypothesis =>
      obtain ⟨partnerBefore, otherProceeds, otherGoesOn, room⟩ := otherProceeds.before
      obtain ⟨before, proceeds, correspond⟩ :=
        inductionHypothesis (fun earlier => inStep (Nat.lt_succ_of_lt earlier)) otherProceeds
      rcases (inStep (Nat.lt_succ_self _) proceeds correspond).next? comparable with
        ⟨_, final⟩ | ⟨next, partnerNext, goesOn, otherGoesOnToo, correspondNext⟩
      · simp [final] at otherGoesOn
      · cases otherGoesOn.symm.trans otherGoesOnToo
        rw [← comparable.output correspondNext, ← comparable.maxOutput] at room
        exact ⟨next, proceeds.next goesOn room, correspondNext⟩

end Proceeds

section Drive

variable {m : Type → Type} [Monad m] [LawfulMonad m] {View : Type} {view : State Registers → View}
  {otherView : State OtherRegisters → View}

/-- In their last cycle both runs come to ends that look the same. -/
theorem InStep.driveWith_last (inStep : machine.InStep other Corresponds state partner)
    (agree : ∀ {state partner}, Corresponds state partner → view state = otherView partner)
    (final : machine.next? state = none) (otherFinal : other.next? partner = none) (timeUp : m Bool)
    (cycles more : Nat) :
    Finish.seen view <$> machine.driveWith timeUp state cycles more =
      Finish.seen otherView <$> other.driveWith timeUp partner cycles more := by
  rw [Machine.driveWith_last final, Machine.driveWith_last otherFinal]
  simp [Finish.seen, agree inStep.step, inStep.fault]

/-- Runs along which the machines are in step come to ends that look the same. -/
theorem Comparable.driveWith (comparable : machine.Comparable other Corresponds)
    (agree : ∀ {state partner}, Corresponds state partner → view state = otherView partner)
    (corresponds : Corresponds state partner) (timeUp : m Bool) (cycles more : Nat)
    (inStep : ∀ {made last lastPartner}, made ≤ more → machine.Proceeds state made last →
      Corresponds last lastPartner → machine.InStep other Corresponds last lastPartner) :
    Finish.seen view <$> machine.driveWith timeUp state cycles more =
      Finish.seen otherView <$> other.driveWith timeUp partner cycles more := by
  -- After each cycle both runs ask the host for the time and compare equal outputs with one limit.
  have first := inStep (Nat.zero_le _) (.start state) corresponds
  induction more generalizing state partner cycles with
  | zero =>
      rcases first.next? comparable with ⟨final, otherFinal⟩ | ⟨next, partnerNext, goesOn,
        otherGoesOn, correspondNext⟩
      · exact first.driveWith_last agree final otherFinal timeUp cycles 0
      · rw [driveWith_zero goesOn, driveWith_zero otherGoesOn]
        simp [Finish.seen, agree correspondNext, comparable.maxCycles]
  | succ more inductionHypothesis =>
      rcases first.next? comparable with ⟨final, otherFinal⟩ | ⟨next, partnerNext, goesOn,
        otherGoesOn, correspondNext⟩
      · exact first.driveWith_last agree final otherFinal timeUp cycles (more + 1)
      · have sameOutput := comparable.output correspondNext
        rw [driveWith_succ goesOn, driveWith_succ otherGoesOn, map_bind, map_bind]
        congr 1
        funext up
        cases up with
        | true => simp [Finish.seen, agree correspondNext, comparable.maxTime]
        | false =>
            simp only [Bool.false_eq_true, if_false, ← sameOutput, ← comparable.maxOutput]
            by_cases full : machine.options.maxOutput ≤ next.output.length
            · simp [full, Finish.seen, agree correspondNext]
            · simp only [full, if_false]
              have room := Nat.lt_of_not_le full
              have inStepNext {made : Nat} {last : State Registers}
                  {lastPartner : State OtherRegisters} (within : made ≤ more)
                  (proceeds : machine.Proceeds next made last) :
                  Corresponds last lastPartner → machine.InStep other Corresponds last lastPartner :=
                inStep (Nat.succ_le_succ within) (proceeds.prepend goesOn room)
              exact inductionHypothesis correspondNext (cycles + 1) inStepNext
                (inStepNext (Nat.zero_le _) (.start next) correspondNext)

/-- Runs from corresponding states come to ends that look the same. -/
theorem Lockstep.driveWith (lockstep : machine.Lockstep other Corresponds)
    (agree : ∀ {state partner}, Corresponds state partner → view state = otherView partner)
    (corresponds : Corresponds state partner) (running : state.ending = none) (timeUp : m Bool)
    (cycles more : Nat) :
    Finish.seen view <$> machine.driveWith timeUp state cycles more =
      Finish.seen otherView <$> other.driveWith timeUp partner cycles more :=
  lockstep.toComparable.driveWith agree corresponds timeUp cycles more fun _ proceeds correspond =>
    lockstep.inStep correspond (running_of_after? running proceeds.reaches)

end Drive

section Equal

variable {m : Type → Type} [Monad m] {twin : Machine Op Registers}

/-- What a run does from a state is settled by the cycles and the limits. -/
theorem driveWith_eq_of_step (limits : machine.options = twin.options)
    (steps : ∀ state, machine.step state = twin.step state) (timeUp : m Bool)
    (state : State Registers) (cycles more : Nat) :
    machine.driveWith timeUp state cycles more = twin.driveWith timeUp state cycles more := by
  induction more generalizing state cycles with
  | zero =>
      rw [driveWith.eq_def, driveWith.eq_def, steps, limits]
  | succ more inductionHypothesis =>
      rw [driveWith.eq_def, driveWith.eq_def, steps, limits]
      simp only [inductionHypothesis]

/-- Machines that start alike and go through the same cycles under the same limits run alike. -/
theorem runWith_eq_of_step (limits : machine.options = twin.options)
    (starts : machine.start = twin.start)
    (steps : ∀ state, machine.step state = twin.step state) (timeUp : m Bool) (input : String) :
    machine.runWith timeUp input = twin.runWith timeUp input := by
  rw [runWith, runWith, initial, initial, starts, limits]
  exact driveWith_eq_of_step limits steps timeUp _ _ _

end Equal

end Machine

end Esoterica
