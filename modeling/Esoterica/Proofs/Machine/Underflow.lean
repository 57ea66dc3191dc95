import Esoterica.Proofs.Machine.Conclusion
import Esoterica.Proofs.Machine.Reaches

/-!
Stacks over zeros. What a stack does not hold reads as zero, so that zeros at the bottom of a stack can
be told from missing values only when the stack overflows. A machine that uses its stack in this way
runs alike from states that differ in such zeros.
-/

namespace Esoterica

/-- No stack was too full: there is no fault, or another one. -/
def StackFits (fault : Option Error) : Prop :=
  fault.map Error.kind ≠ some .stackOverflow

instance (fault : Option Error) : Decidable (StackFits fault) :=
  inferInstanceAs (Decidable (_ ≠ _))

namespace Outcome

variable {State Other : Type} {Related : State → State → Prop} {first second : Outcome State}

/-- Unless one of two operations overflows a stack, they fail alike and leave related states. -/
def Agree (Related : State → State → Prop) (first second : Outcome State) : Prop :=
  StackFits first.fault → StackFits second.fault →
    first.fault = second.fault ∧ Related first.state second.state

theorem Agree.of_related {state partner : State} (related : Related state partner)
    (fault : Option Error) : Agree Related ⟨state, fault⟩ ⟨partner, fault⟩ :=
  fun _ _ => ⟨rfl, related⟩

theorem andThen_of_fault {outcome : Outcome State} {fault : Error} (next : State → Outcome State)
    (fails : outcome.fault = some fault) : outcome.andThen next = outcome := by
  simp only [Outcome.andThen, fails]

theorem andThen_of_none {outcome : Outcome State} (next : State → Outcome State)
    (succeeds : outcome.fault = none) : outcome.andThen next = next outcome.state := by
  simp only [Outcome.andThen, succeeds]

theorem stackFits_of_andThen {outcome : Outcome State} {next : State → Outcome State}
    (fits : StackFits (outcome.andThen next).fault) : StackFits outcome.fault := by
  intro overflows
  obtain ⟨fault, fails, _⟩ := Option.map_eq_some_iff.1 overflows
  rw [andThen_of_fault next fails] at fits
  exact fits overflows

theorem Agree.andThen {next : State → Outcome State} (agree : first.Agree Related second)
    (continues : ∀ state partner, Related state partner → (next state).Agree Related (next partner)) :
    (first.andThen next).Agree Related (second.andThen next) := by
  intro fits fitsToo
  obtain ⟨sameFault, related⟩ := agree (stackFits_of_andThen fits) (stackFits_of_andThen fitsToo)
  cases fails : first.fault with
  | none =>
      have failsToo := sameFault.symm.trans fails
      rw [andThen_of_none next fails] at fits ⊢
      rw [andThen_of_none next failsToo] at fitsToo ⊢
      exact continues _ _ related fits fitsToo
  | some fault =>
      have failsToo := sameFault.symm.trans fails
      rw [andThen_of_fault next fails, andThen_of_fault next failsToo]
      exact ⟨sameFault, related⟩

theorem Agree.mapFault {change : Error → Error} (agree : first.Agree Related second)
    (kept : ∀ error, (change error).kind = error.kind) :
    (first.mapFault change).Agree Related (second.mapFault change) := by
  have kinds : Error.kind ∘ change = Error.kind := funext kept
  intro fits fitsToo
  simp only [StackFits, Outcome.mapFault, Option.map_map, kinds] at fits fitsToo
  obtain ⟨sameFault, related⟩ := agree fits fitsToo
  exact ⟨congrArg (Option.map change) sameFault, related⟩

theorem Agree.within {RelatedOuter : Other → Other → Prop} {embed embedToo : State → Other}
    (agree : first.Agree Related second)
    (embeds : ∀ state partner, Related state partner →
      RelatedOuter (embed state) (embedToo partner)) :
    (first.within embed).Agree RelatedOuter (second.within embedToo) := by
  intro fits fitsToo
  obtain ⟨sameFault, related⟩ := agree fits fitsToo
  exact ⟨sameFault, embeds _ _ related⟩

end Outcome

namespace Stack

/-- The value at a depth, where there are zeros beneath the stack. -/
def reading (stack : Stack) (depth : Nat) : Word :=
  (stack.peekAt? depth).getD 0

/-- The stacks become equal when some zeros are put beneath each of them. -/
def SameOverZeros (first second : Stack) : Prop :=
  ∃ under beneath : Nat,
    first.values ++ List.replicate under 0 = second.values ++ List.replicate beneath 0

variable {first second : Stack}

theorem getD_append_zeros (values : List Word) (count depth : Nat) :
    ((values ++ List.replicate count 0)[depth]?).getD 0 = (values[depth]?).getD 0 := by
  rcases Nat.lt_or_ge depth values.length with within | beyond
  · rw [List.getElem?_append_left within]
  · rw [List.getElem?_append_right beyond, List.getElem?_eq_none beyond, List.getElem?_replicate]
    split <;> rfl

/-- Over zeros, a stack is what is read at every depth. -/
theorem sameOverZeros_iff :
    first.SameOverZeros second ↔ ∀ depth, first.reading depth = second.reading depth := by
  constructor
  · rintro ⟨under, beneath, equal⟩ depth
    have read := getD_append_zeros first.values under depth
    rw [equal, getD_append_zeros] at read
    exact read.symm
  · intro same
    refine ⟨second.values.length, first.values.length, List.ext_getElem ?_ ?_⟩
    · simp [Nat.add_comm]
    · intro depth within withinToo
      have read := getD_append_zeros first.values second.values.length depth
      have readToo := getD_append_zeros second.values first.values.length depth
      rw [List.getElem?_eq_getElem within, Option.getD_some] at read
      rw [List.getElem?_eq_getElem withinToo, Option.getD_some] at readToo
      exact read.trans ((same depth).trans readToo.symm)

theorem SameOverZeros.refl (stack : Stack) : stack.SameOverZeros stack :=
  ⟨0, 0, rfl⟩

theorem pop_fst (stack : Stack) : stack.pop.1 = stack.reading 0 := by
  obtain ⟨_ | ⟨value, rest⟩, _, _⟩ := stack <;> rfl

theorem reading_pop (stack : Stack) (depth : Nat) :
    stack.pop.2.reading depth = stack.reading (depth + 1) := by
  obtain ⟨_ | ⟨value, rest⟩, _, _⟩ := stack <;> simp [pop, reading, peekAt?, empty]

theorem reading_slide (stack : Stack) (count depth : Nat) :
    (stack.slide count).reading depth =
      if depth = 0 then stack.reading 0 else stack.reading (depth + count) := by
  obtain ⟨_ | ⟨value, rest⟩, _, _⟩ := stack
  · simp [slide, reading, peekAt?]
  · cases depth with
    | zero => rfl
    | succ depth =>
        have further : depth + 1 + count = count + depth + 1 := by omega
        simp [slide, reading, peekAt?, ofList, further]

namespace SameOverZeros

variable (same : first.SameOverZeros second)

include same

theorem reading_eq (depth : Nat) : first.reading depth = second.reading depth :=
  sameOverZeros_iff.1 same depth

theorem pop_eq : first.pop.1 = second.pop.1 := by
  rw [pop_fst, pop_fst, same.reading_eq]

theorem pop : first.pop.2.SameOverZeros second.pop.2 := by
  refine sameOverZeros_iff.2 fun depth => ?_
  rw [reading_pop, reading_pop, same.reading_eq]

theorem slide (count : Nat) : (first.slide count).SameOverZeros (second.slide count) := by
  refine sameOverZeros_iff.2 fun depth => ?_
  rw [reading_slide, reading_slide, same.reading_eq, same.reading_eq]

theorem push (value : Word) : (first.push value).Agree SameOverZeros (second.push value) := by
  intro fits fitsToo
  by_cases room : first.height < limit
  · by_cases roomToo : second.height < limit
    · simp only [Stack.push, room, roomToo, if_true]
      refine ⟨trivial, sameOverZeros_iff.2 fun depth => ?_⟩
      cases depth with
      | zero => rfl
      | succ depth => exact same.reading_eq depth
    · simp only [Stack.push, roomToo, if_false] at fitsToo
      exact (fitsToo rfl).elim
  · simp only [Stack.push, room, if_false] at fits
    exact (fits rfl).elim

theorem pushTwo (lower upper : Word) :
    ((first.push lower).andThen (·.push upper)).Agree SameOverZeros
      ((second.push lower).andThen (·.push upper)) :=
  (same.push lower).andThen fun _ _ same => same.push upper

theorem dup : first.dup.Agree SameOverZeros second.dup := by
  have top : first.peek = second.peek := same.reading_eq 0
  rw [Stack.dup, Stack.dup, top]
  exact same.push second.peek

theorem copy (depth : Nat) : (first.copy depth).Agree SameOverZeros (second.copy depth) := by
  have value : (first.peekAt? depth).getD 0 = (second.peekAt? depth).getD 0 := same.reading_eq depth
  rw [Stack.copy, Stack.copy, value]
  exact same.push _

theorem swap : first.swap.Agree SameOverZeros second.swap := by
  simp only [Stack.swap, same.pop_eq, same.pop.pop_eq]
  exact same.pop.pop.pushTwo _ _

theorem negate : first.negate.Agree SameOverZeros second.negate := by
  simp only [Stack.negate, same.pop_eq]
  exact same.pop.push _

theorem binary (op : BinaryOp) (ignoreZero : Bool) :
    (first.binary op ignoreZero).Agree SameOverZeros (second.binary op ignoreZero) := by
  simp only [Stack.binary, same.pop_eq, same.pop.pop_eq]
  split
  · split
    · exact same.pop.pop.pushTwo _ _
    · exact .of_related same.pop.pop _
  · exact same.pop.pop.push _

end SameOverZeros

end Stack

/-- The states differ in nothing but zeros beneath their stacks. -/
structure State.SameOverZeros {Registers : Type} (first second : State Registers) : Prop where
  registers : first.registers = second.registers
  stack : first.stack.SameOverZeros second.stack
  input : first.input = second.input
  output : first.output = second.output
  ending : first.ending = second.ending

namespace State.SameOverZeros

variable {Registers : Type} {first second : State Registers} (same : first.SameOverZeros second)

include same

theorem done_eq : first.done = second.done := by
  rw [State.done, State.done, same.ending]

theorem update (change : Registers → Registers) :
    (first.update change).SameOverZeros (second.update change) :=
  { same with registers := congrArg change same.registers }

theorem halt (ending : Ending) : (first.halt ending).SameOverZeros (second.halt ending) :=
  { same with ending := rfl }

theorem withStack {stack partner : Stack} (sameStack : stack.SameOverZeros partner) :
    State.SameOverZeros { first with stack } { second with stack := partner } :=
  { same with stack := sameStack }

theorem pop_eq : first.pop.1 = second.pop.1 :=
  same.stack.pop_eq

theorem pop : first.pop.2.SameOverZeros second.pop.2 :=
  same.withStack same.stack.pop

theorem onStack {act : Stack → Outcome Stack}
    (acts : (act first.stack).Agree Stack.SameOverZeros (act second.stack)) :
    (first.onStack act).Agree State.SameOverZeros (second.onStack act) :=
  acts.within fun _ _ sameStack => same.withStack sameStack

theorem push (value : Word) : (first.push value).Agree State.SameOverZeros (second.push value) :=
  same.onStack (same.stack.push value)

theorem readChar_eq : first.readChar.1 = second.readChar.1 :=
  congrArg (fun input => input.readChar.1) same.input

theorem readChar : first.readChar.2.SameOverZeros second.readChar.2 :=
  { same with input := congrArg (fun input => input.readChar.2) same.input }

theorem readNumber_eq : first.readNumber.1 = second.readNumber.1 :=
  congrArg (fun input => input.readNumber.1) same.input

theorem readNumber : first.readNumber.2.SameOverZeros second.readNumber.2 :=
  { same with input := congrArg (fun input => input.readNumber.2) same.input }

theorem readLine_eq : first.readLine.1 = second.readLine.1 :=
  congrArg (fun input => input.readLine.1) same.input

theorem readLine : first.readLine.2.SameOverZeros second.readLine.2 :=
  { same with input := congrArg (fun input => input.readLine.2) same.input }

theorem writeCode (code : Word) : (first.writeCode code).SameOverZeros (second.writeCode code) :=
  { same with output := congrArg (·.writeCode code) same.output }

theorem writeText (text : String) : (first.writeText text).SameOverZeros (second.writeText text) :=
  { same with output := congrArg (·.writeText text) same.output }

end State.SameOverZeros

/-- Runs that have ended alike, but for zeros beneath their stacks. -/
structure Finish.SameOverZeros {Registers : Type} (first second : Finish Registers) : Prop where
  cycles : first.cycles = second.cycles
  fault : first.fault = second.fault
  state : first.state.SameOverZeros second.state

namespace Machine

variable {Op Registers : Type} {machine : Machine Op Registers} {state next : State Registers}

/-- What some cycles come to, or fewer if one of them fails or ends the program. -/
def runFor (machine : Machine Op Registers) : Nat → State Registers → Outcome (State Registers)
  | 0, state => ⟨state, none⟩
  | cycles + 1, state =>
    match machine.next? state with
    | some next => machine.runFor cycles next
    | none => machine.step state

theorem runFor_of_next? (goesOn : machine.next? state = some next) (cycles : Nat) :
    machine.runFor (cycles + 1) state = machine.runFor cycles next := by
  simp only [runFor, goesOn]

theorem runFor_of_last (final : machine.next? state = none) (cycles : Nat) :
    machine.runFor (cycles + 1) state = machine.step state := by
  simp only [runFor, final]

/-- A cycle that overflows the stack is the last one. -/
theorem next?_eq_none_of_overflow
    (overflows : (machine.step state).fault.map Error.kind = some .stackOverflow) :
    machine.next? state = none := by
  obtain ⟨fault, fails, _⟩ := Option.map_eq_some_iff.1 overflows
  rw [next?_eq_none_iff, fails]
  exact .inl rfl

theorem stackFits_of_runFor {cycles : Nat}
    (fits : StackFits (machine.runFor (cycles + 1) state).fault) :
    StackFits (machine.step state).fault := by
  intro overflows
  rw [runFor_of_last (next?_eq_none_of_overflow overflows)] at fits
  exact fits overflows

theorem stackFits_of_driveWith {Host : Type} {timeUp : StateM Host Bool} {host : Host}
    {cycles more : Nat}
    (fits : StackFits ((machine.driveWith timeUp state cycles more).run host).run.1.fault) :
    StackFits (machine.step state).fault := by
  intro overflows
  rw [driveWith_last (next?_eq_none_of_overflow overflows)] at fits
  exact fits overflows

/-- Zeros beneath the stack make no difference to a cycle. -/
structure IgnoresZeros (machine : Machine Op Registers) : Prop where
  decode : ∀ {first second : State Registers}, first.SameOverZeros second →
    machine.decode first = machine.decode second
  step : ∀ {first second : State Registers}, first.SameOverZeros second →
    (machine.step first).Agree State.SameOverZeros (machine.step second)

/-- The runs from two states are alike, as long as neither overflows its stack: they carry out the same
instructions, fail alike in the same cycle, and go through states that differ in nothing but zeros
beneath their stacks. -/
structure Abreast (machine : Machine Op Registers) (first second : State Registers) : Prop where
  cycles : ∀ cycles,
    let outcome := machine.runFor cycles first
    let partner := machine.runFor cycles second
    StackFits outcome.fault → StackFits partner.fault →
      machine.trail cycles first = machine.trail cycles second ∧ outcome.fault = partner.fault ∧
        outcome.state.SameOverZeros partner.state
  runs : ∀ (Host : Type) (timeUp : StateM Host Bool) (host : Host) (cycles more : Nat),
    let result := ((machine.driveWith timeUp first cycles more).run host).run
    let partner := ((machine.driveWith timeUp second cycles more).run host).run
    StackFits result.1.fault → StackFits partner.1.fault →
      result.1.SameOverZeros partner.1 ∧ result.2 = partner.2

theorem ignoresZeros_of_execute
    (decoded : ∀ {first second : State Registers}, first.SameOverZeros second →
      machine.decode first = machine.decode second)
    (executed : ∀ (op : Op) {first second : State Registers}, first.SameOverZeros second →
      (machine.execute op first).Agree State.SameOverZeros (machine.execute op second))
    (advanced : ∀ (op : Op) {first second : State Registers}, first.SameOverZeros second →
      (machine.advance op first).SameOverZeros (machine.advance op second)) :
    machine.IgnoresZeros where
  decode := decoded
  step := by
    intro first second same
    cases found : machine.decode second with
    | none =>
        simp only [step, decoded same, found]
        exact .of_related (same.halt .ranOff) none
    | some op =>
        rw [step_eq_andThen ((decoded same).trans found), step_eq_andThen found]
        refine (executed op same).andThen fun after partner sameAfter => ?_
        rw [sameAfter.done_eq]
        split
        · exact .of_related sameAfter none
        · exact .of_related (advanced op sameAfter) none

namespace IgnoresZeros

variable {first second : State Registers} (ignores : machine.IgnoresZeros)
  (same : first.SameOverZeros second)

include ignores same

/-- Unless one of them overflows, a cycle is the last one of both runs or of neither. -/
theorem next? (fits : StackFits (machine.step first).fault)
    (fitsToo : StackFits (machine.step second).fault) :
    (machine.next? first = none ∧ machine.next? second = none) ∨
      ∃ next partner, machine.next? first = some next ∧ machine.next? second = some partner ∧
        next.SameOverZeros partner := by
  obtain ⟨sameFault, sameState⟩ := ignores.step same fits fitsToo
  unfold Machine.next?
  simp only [sameFault, sameState.done_eq]
  split
  · exact .inr ⟨_, _, rfl, rfl, sameState⟩
  · exact .inl ⟨rfl, rfl⟩

theorem runFor (cycles : Nat) (fits : StackFits (machine.runFor cycles first).fault)
    (fitsToo : StackFits (machine.runFor cycles second).fault) :
    machine.trail cycles first = machine.trail cycles second ∧
      (machine.runFor cycles first).fault = (machine.runFor cycles second).fault ∧
      (machine.runFor cycles first).state.SameOverZeros (machine.runFor cycles second).state := by
  induction cycles generalizing first second with
  | zero => exact ⟨rfl, rfl, same⟩
  | succ cycles inductionHypothesis =>
      have stepFits := stackFits_of_runFor fits
      have stepFitsToo := stackFits_of_runFor fitsToo
      rcases ignores.next? same stepFits stepFitsToo with
        ⟨final, finalToo⟩ | ⟨next, partner, goesOn, goesOnToo, sameNext⟩
      · rw [trail_of_last final, trail_of_last finalToo, runFor_of_last final,
          runFor_of_last finalToo, ignores.decode same]
        exact ⟨rfl, ignores.step same stepFits stepFitsToo⟩
      · rw [runFor_of_next? goesOn] at fits ⊢
        rw [runFor_of_next? goesOnToo] at fitsToo ⊢
        obtain ⟨sameTrail, sameOutcome⟩ := inductionHypothesis sameNext fits fitsToo
        rw [trail_of_next? goesOn, trail_of_next? goesOnToo, ignores.decode same, sameTrail]
        exact ⟨rfl, sameOutcome⟩

section Drive

variable {Host : Type} {timeUp : StateM Host Bool}

/-- Runs that come to their last cycle together end alike. -/
theorem driveWith_last (final : machine.next? first = none) (finalToo : machine.next? second = none)
    (fits : StackFits (machine.step first).fault) (fitsToo : StackFits (machine.step second).fault)
    (host : Host) (cycles more : Nat) :
    let result := ((machine.driveWith timeUp first cycles more).run host).run
    let partner := ((machine.driveWith timeUp second cycles more).run host).run
    result.1.SameOverZeros partner.1 ∧ result.2 = partner.2 := by
  obtain ⟨sameFault, sameState⟩ := ignores.step same fits fitsToo
  rw [Machine.driveWith_last final, Machine.driveWith_last finalToo, sameFault]
  exact ⟨⟨rfl, rfl, sameState⟩, rfl⟩

theorem driveWith (host : Host) (cycles more : Nat)
    (fits : StackFits ((machine.driveWith timeUp first cycles more).run host).run.1.fault)
    (fitsToo : StackFits ((machine.driveWith timeUp second cycles more).run host).run.1.fault) :
    let result := ((machine.driveWith timeUp first cycles more).run host).run
    let partner := ((machine.driveWith timeUp second cycles more).run host).run
    result.1.SameOverZeros partner.1 ∧ result.2 = partner.2 := by
  -- Both runs ask the host equally often, and equal outputs meet one limit in the same cycle.
  induction more generalizing first second cycles host with
  | zero =>
      have stepFits := stackFits_of_driveWith fits
      have stepFitsToo := stackFits_of_driveWith fitsToo
      rcases ignores.next? same stepFits stepFitsToo with
        ⟨final, finalToo⟩ | ⟨next, partner, goesOn, goesOnToo, sameNext⟩
      · exact ignores.driveWith_last same final finalToo stepFits stepFitsToo host cycles 0
      · rw [driveWith_zero goesOn, driveWith_zero goesOnToo]
        exact ⟨⟨rfl, rfl, sameNext⟩, rfl⟩
  | succ more inductionHypothesis =>
      have stepFits := stackFits_of_driveWith fits
      have stepFitsToo := stackFits_of_driveWith fitsToo
      rcases ignores.next? same stepFits stepFitsToo with
        ⟨final, finalToo⟩ | ⟨next, partner, goesOn, goesOnToo, sameNext⟩
      · exact ignores.driveWith_last same final finalToo stepFits stepFitsToo host cycles (more + 1)
      · rw [driveWith_succ goesOn, StateT.run_bind, Id.run_bind] at fits ⊢
        rw [driveWith_succ goesOnToo, StateT.run_bind, Id.run_bind, ← sameNext.output] at fitsToo ⊢
        cases up : (timeUp.run host).run.1 with
        | true =>
            simp only [if_true]
            exact ⟨⟨rfl, rfl, sameNext⟩, rfl⟩
        | false =>
            simp only [up, Bool.false_eq_true, if_false] at fits fitsToo ⊢
            by_cases full : machine.options.maxOutput ≤ next.output.length
            · simp only [full, if_true]
              exact ⟨⟨rfl, rfl, sameNext⟩, rfl⟩
            · simp only [full, if_false] at fits fitsToo ⊢
              exact inductionHypothesis sameNext _ (cycles + 1) fits fitsToo

end Drive

/-- What makes no difference to a cycle makes none to a run. -/
theorem abreast : machine.Abreast first second where
  cycles := ignores.runFor same
  runs _ _ host cycles more := ignores.driveWith same host cycles more

end IgnoresZeros

end Machine

end Esoterica
