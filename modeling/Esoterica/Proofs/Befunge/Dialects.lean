import Esoterica.Program
import Esoterica.Proofs.Befunge.Walk
import Esoterica.Proofs.Machine.Lockstep

/-!
Befunge-98 as an extension of Befunge-93. The dialect matters only to the meaning of a cell, and the
dice only to one instruction; a run that meets neither a cell whose meaning the dialect decides nor
other dice is the same in both dialects.
-/

namespace Esoterica

namespace Befunge

/-- A character of the table of Befunge-93 means the same in both dialects. -/
theorem Op.decode_of_primary? {c : Char} {op : Op} (primary : primary? c = some op)
    (dialect : Dialect) : decode dialect (Word.ofChar c) = op := by
  simp only [decode, Word.toInt_ofChar, Text.scalar?_toNat, primary]

/-- Outside string mode, the pointer is on a character of the table of Befunge-93. -/
def OnPrimary (wrap : Bool) (state : State Registers) : Prop :=
  state.registers.stringMode = false →
    ∀ cell, state.registers.field.look? wrap state.registers.pointer = some cell →
      ∃ c, cell = Word.ofChar c ∧ (Op.primary? c).isSome

theorem onPrimary_iff {wrap : Bool} {state : State Registers} :
    OnPrimary wrap state ↔ state.registers.stringMode = false →
      (state.registers.field.look? wrap state.registers.pointer).all fun cell =>
        ((Text.scalar? cell.toInt).bind Op.primary?).isSome := by
  refine imp_congr_right fun _ => ?_
  cases state.registers.field.look? wrap state.registers.pointer with
  | none => simp
  | some cell =>
      simp only [Option.some.injEq, forall_eq', Option.all_some]
      constructor
      · rintro ⟨c, rfl, known⟩
        rwa [Word.toInt_ofChar, Text.scalar?_toNat]
      · intro known
        obtain ⟨op, primary⟩ := Option.isSome_iff_exists.1 known
        obtain ⟨c, scalar, primary⟩ := Option.bind_eq_some_iff.1 primary
        exact ⟨c, Word.eq_ofChar_of_scalar? scalar, by rw [primary]; rfl⟩

instance (wrap : Bool) (state : State Registers) : Decidable (OnPrimary wrap state) :=
  decidable_of_iff _ onPrimary_iff.symm

section OnPrimary

variable {options other : Options} {state : State Registers}
  (onPrimary : OnPrimary options.wrap state) (sameWrap : options.wrap = other.wrap)

include onPrimary sameWrap

theorem decode_eq_of_onPrimary : decode options state = decode other state := by
  rw [decode, decode, ← sameWrap]
  cases seen : state.registers.field.look? options.wrap state.registers.pointer with
  | none => rfl
  | some cell =>
      cases mode : state.registers.stringMode with
      | true => rfl
      | false =>
          obtain ⟨c, rfl, known⟩ := onPrimary mode cell seen
          obtain ⟨op, primary⟩ := Option.isSome_iff_exists.1 known
          simp only [Option.map_some, Bool.false_eq_true, if_false,
            Op.decode_of_primary? primary]

/-- There both dialects go through the same cycle, whatever dice the machines began with. -/
theorem step_eq_of_onPrimary (field : Field) (first second : Dice) :
    (machine options field first).step state = (machine other field second).step state := by
  have decoded : (machine options field first).decode state =
      (machine other field second).decode state :=
    decode_eq_of_onPrimary onPrimary sameWrap
  have executed (op : Op) : execute options op state = execute other op state := by
    unfold execute
    rw [sameWrap]
  cases known : (machine other field second).decode state with
  | none => simp only [Machine.step, decoded, known]
  | some op =>
      rw [Machine.step_eq_andThen (decoded.trans known), Machine.step_eq_andThen known]
      simp only [machine, executed, sameWrap]

end OnPrimary

/-- A state with other dice. -/
def diced (dice : Dice) (state : State Registers) : State Registers :=
  state.update fun registers => { registers with dice }

section Diced

variable (dice : Dice) (state : State Registers) (wrap : Bool)

theorem diced_self : diced state.registers.dice state = state := rfl

theorem done_diced : (diced dice state).done = state.done := rfl

theorem field_diced : (diced dice state).registers.field = state.registers.field := rfl

theorem pointer_diced : (diced dice state).registers.pointer = state.registers.pointer := rfl

theorem move_diced : move wrap (diced dice state) = diced dice (move wrap state) := by
  simp only [move, field_diced, pointer_diced]
  split <;> rfl

theorem moveTimes_diced (count : Nat) :
    moveTimes wrap (diced dice state) count = diced dice (moveTimes wrap state count) := by
  induction count generalizing state with
  | zero => rfl
  | succ count inductionHypothesis =>
      simp only [moveTimes, move_diced, done_diced, inductionHypothesis]
      split <;> rfl

theorem moveToSemicolon_diced (count : Nat) :
    moveToSemicolon wrap (diced dice state) count =
      diced dice (moveToSemicolon wrap state count) := by
  induction count generalizing state with
  | zero => rfl
  | succ count inductionHypothesis =>
      simp only [moveToSemicolon, move_diced, done_diced, field_diced, pointer_diced,
        inductionHypothesis]
      split <;> rfl

theorem jump_diced (count : Word) :
    jump wrap (diced dice state) count = diced dice (jump wrap state count) := by
  have reflected : steer (diced dice state) .reflect = diced dice (steer state .reflect) := rfl
  simp only [jump, reflected, moveTimes_diced, field_diced]
  split <;> rfl

theorem put_diced (x y value : Word) :
    put (diced dice state) x y value = (put state x y value).within (diced dice) := by
  simp only [put, field_diced]
  split <;> rfl

/-- Only one instruction looks at the dice. -/
theorem execute_diced (options : Options) {op : Op} (steady : op ≠ .random) :
    execute options op (diced dice state) = (execute options op state).within (diced dice) := by
  have popped (state : State Registers) :
      (diced dice state).pop = (state.pop.1, diced dice state.pop.2) := rfl
  cases op with
  | random => exact (steady rfl).elim
  | bridge => simp only [execute, move_diced, Outcome.within]
  | put => simp only [execute, popped, put_diced]
  | jumpForward => simp only [execute, popped, jump_diced, Outcome.within]
  | skipComment => simp only [execute, field_diced, moveToSemicolon_diced, Outcome.within]
  | compare =>
      simp only [execute, popped]
      split
      · rfl
      · split <;> rfl
  | fetch =>
      simp only [execute, move_diced, done_diced]
      split <;> rfl
  | store =>
      simp only [execute, popped, move_diced, done_diced, pointer_diced]
      split
      · rfl
      · exact put_diced dice _ _ _ _
  | _ => rfl

theorem step_diced (options : Options) (field : Field) (first : Dice)
    (steady : decode options state ≠ some .random) :
    (machine options field first).step (diced dice state) =
      ((machine options field first).step state).within (diced dice) := by
  cases decoded : decode options state with
  | none =>
      have undecoded : (machine options field first).decode state = none := decoded
      have undecodedToo : (machine options field first).decode (diced dice state) = none := decoded
      simp only [Machine.step, undecoded, undecodedToo]
      rfl
  | some op =>
      have executed := execute_diced dice state options fun random => steady (random ▸ decoded)
      rw [Machine.step_eq_andThen (show (machine options field first).decode state = some op from decoded),
        Machine.step_eq_andThen
          (show (machine options field first).decode (diced dice state) = some op from decoded)]
      refine (congrArg (Outcome.andThen · _) executed).trans (Outcome.within_andThen fun after => ?_)
      simp only [done_diced, machine, move_diced, Outcome.within]
      split <;> rfl

end Diced

/-- The same states but for the dice, and the dice too where both runs began with the same. -/
structure Alike (sameDice : Prop) (state partner : State Registers) : Prop where
  rest : ∃ dice, partner = diced dice state
  same : sameDice → partner = state

section Alike

variable {sameDice : Prop} {options other : Options} {field : Field} {first second : Dice}
  {state partner : State Registers}

theorem Alike.view {View : Type} (alike : Alike sameDice state partner) (view : State Registers → View)
    (blind : ∀ dice, view (diced dice state) = view state) : view state = view partner := by
  obtain ⟨dice, rfl⟩ := alike.rest
  exact (blind dice).symm

theorem inStep_of_alike (onPrimary : OnPrimary options.wrap state)
    (sameWrap : options.wrap = other.wrap) (steady : sameDice ∨ decode options state ≠ some .random)
    (alike : Alike sameDice state partner) :
    (machine options field first).InStep (machine other field second) (Alike sameDice) state partner := by
  obtain ⟨⟨dice, rfl⟩, same⟩ := alike
  have stepped : (machine other field second).step (diced dice state) =
      (machine options field first).step (diced dice state) :=
    (step_eq_of_onPrimary (show OnPrimary options.wrap (diced dice state) from onPrimary) sameWrap
      field first second).symm
  by_cases begunAlike : sameDice
  · rw [same begunAlike] at stepped ⊢
    exact ⟨by rw [stepped], ⟨⟨_, by rw [stepped, diced_self]⟩, fun _ => by rw [stepped]⟩⟩
  · rw [step_diced dice state options field first (steady.resolve_left begunAlike)] at stepped
    exact ⟨by rw [stepped]; rfl, ⟨⟨dice, by rw [stepped]; rfl⟩, fun yes => (begunAlike yes).elim⟩⟩

end Alike

/-- Befunge-98 runs programs of Befunge-93 as Befunge-93 does. If every cell that a run in the old
dialect decodes outside string mode holds a character of the old table, the run in the new dialect goes
through the same instructions and states to the same end. The dice are any, and may be other ones if
they are not rolled. -/
theorem befunge98_extends_befunge93 (options : Options) (seed : Option UInt64) (source : String)
    (field : Field) (loaded : load { options with dialect := .befunge93 } source = .ok field)
    (input : String) (dice others : Dice) :
    let oldOptions : Options := { options with dialect := .befunge93 }
    let newOptions : Options := { options with dialect := .befunge98, seed }
    let old := machine oldOptions field dice
    let new := machine newOptions field others
    (∀ cycles state, old.Begins input cycles state → OnPrimary options.wrap state) →
    (others = dice ∨
      ∀ cycles state, old.Begins input cycles state → old.decode state ≠ some .random) →
    load newOptions source = .ok field ∧
    (∀ cycles state, old.Begins input cycles state →
      ∃ partner, new.Begins input cycles partner ∧ Alike (others = dice) state partner ∧
        new.decode partner = old.decode state) ∧
    (∀ cycles partner, new.Begins input cycles partner →
      ∃ state, old.Begins input cycles state ∧ Alike (others = dice) state partner) ∧
    (∀ (m : Type → Type) [Monad m] [LawfulMonad m] (timeUp : m Bool),
      (∀ equal, Finish.seen (diced equal) <$> old.runWith timeUp input =
        Finish.seen (diced equal) <$> new.runWith timeUp input) ∧
      (others = dice →
        Finish.seen id <$> old.runWith timeUp input = Finish.seen id <$> new.runWith timeUp input)) ∧
    let oldRun := (Program.befunge field).run oldOptions input dice
    let newRun := (Program.befunge field).run newOptions input others
    newRun.output = oldRun.output ∧ newRun.fault = oldRun.fault ∧ newRun.cycles = oldRun.cycles := by
  intro oldOptions newOptions old new primary steady
  obtain ⟨valid, rfl⟩ := load_eq_ok_iff.1 loaded
  have someCycles : 1 ≤ options.maxCycles := valid.2.1
  have comparable : old.Comparable new (Alike (others = dice)) :=
    ⟨rfl, rfl, rfl, fun alike => alike.view State.ending fun _ => rfl,
      fun alike => alike.view State.output fun _ => rfl⟩
  have initially : Alike (others = dice) (old.initial input) (new.initial input) :=
    ⟨⟨others, rfl⟩, fun same => by subst same; rfl⟩
  have inStep {made : Nat} {last partner : State Registers} (within : made < options.maxCycles)
      (proceeds : old.Proceeds (old.initial input) made last)
      (alike : Alike (others = dice) last partner) :
      old.InStep new (Alike (others = dice)) last partner :=
    inStep_of_alike (primary made last ⟨proceeds, within⟩) rfl
      (steady.imp_right fun never => never made last ⟨proceeds, within⟩) alike
  have runs {View : Type} (view : State Registers → View)
      (agree : ∀ {state partner}, Alike (others = dice) state partner →
        view state = view partner) (m : Type → Type) [Monad m] [LawfulMonad m] (timeUp : m Bool) :
      Finish.seen view <$> old.runWith timeUp input =
        Finish.seen view <$> new.runWith timeUp input :=
    comparable.driveWith agree initially timeUp 0 (options.maxCycles - 1) fun within =>
      inStep (by omega)
  refine ⟨load_eq_ok_iff.2 ⟨valid, rfl⟩, ?_, ?_,
    fun m _ _ timeUp => ⟨fun equal => ?_, fun same => ?_⟩, ?_⟩
  · rintro cycles state ⟨proceeds, within⟩
    have within : cycles < options.maxCycles := within
    obtain ⟨partner, otherProceeds, alike⟩ :=
      comparable.proceeds initially (fun earlier => inStep (by omega)) proceeds
    refine ⟨partner, ⟨otherProceeds, within⟩, alike, ?_⟩
    obtain ⟨dice, rfl⟩ := alike.rest
    have decoded : decode oldOptions state = decode newOptions state :=
      decode_eq_of_onPrimary (primary cycles state ⟨proceeds, within⟩) rfl
    exact decoded.symm
  · rintro cycles partner ⟨otherProceeds, within⟩
    have within : cycles < options.maxCycles := within
    obtain ⟨state, proceeds, alike⟩ :=
      comparable.proceeds_back initially (fun earlier => inStep (by omega)) otherProceeds
    exact ⟨state, ⟨proceeds, within⟩, alike⟩
  · exact runs (diced equal) (fun alike => alike.view (diced equal) fun _ => rfl) m timeUp
  · exact runs id (fun alike => (alike.same same).symm) m timeUp
  · have sameEnd := congrArg Id.run
      (runs State.output (fun alike => alike.view State.output fun _ => rfl) Id (pure false))
    rw [Id.run_map, Id.run_map] at sameEnd
    simp only [Finish.seen, Prod.mk.injEq] at sameEnd
    obtain ⟨output, cycles, fault⟩ := sameEnd
    exact ⟨congrArg Output.text output.symm, fault.symm, cycles.symm⟩

/-- A program that takes an `h` as text and writes over another one before it comes there, which in the
new dialect would be a fault. Its two runs have different dice. -/
theorem befunge98_extends_befunge93_overwriting :
    let options : Options := { seed := some 1 }
    let oldOptions : Options := { options with dialect := .befunge93 }
    let newOptions : Options := { options with dialect := .befunge98, seed := some 2 }
    let source := "\"h\"88*90ph"
    let field : Field := .ofSource source
    let old := machine oldOptions field
    let oldRun := (Program.befunge field).run oldOptions ""
    let newRun := (Program.befunge field).run newOptions ""
    load oldOptions source = .ok field ∧
      (∀ cycles state, old.Begins "" cycles state → OnPrimary options.wrap state) ∧
      (∀ cycles state, old.Begins "" cycles state → old.decode state ≠ some .random) ∧
      newRun.output = oldRun.output ∧ newRun.fault = oldRun.fault ∧ newRun.cycles = oldRun.cycles := by
  intro options oldOptions newOptions source field old oldRun newRun
  have loaded : load oldOptions source = .ok field := rfl
  have ended : (old.after? 10 (old.initial "")).isNone := by decide +kernel
  have checked : ∀ cycles < 10, (old.after? cycles (old.initial "")).all fun state =>
      OnPrimary options.wrap state ∧ old.decode state ≠ some .random := by decide +kernel
  have fine : ∀ cycles state, old.Begins "" cycles state →
      OnPrimary options.wrap state ∧ old.decode state ≠ some .random := by
    intro cycles state begins
    have reached := begins.1.reaches
    rcases Nat.lt_or_ge cycles 10 with early | late
    · have known := checked cycles early
      rw [reached, Option.all_some, decide_eq_true_eq] at known
      exact known
    · obtain ⟨more, rfl⟩ := Nat.exists_eq_add_of_le late
      rw [Machine.after?_add, Option.isNone_iff_eq_none.1 ended] at reached
      cases reached
  have primary := fun cycles state begins => (fine cycles state begins).1
  have steady := fun cycles state begins => (fine cycles state begins).2
  obtain ⟨_, _, _, _, sameRun⟩ :=
    befunge98_extends_befunge93 options (some 2) source field loaded "" (.ofSeed (some 1))
      (.ofSeed (some 2)) primary (.inr steady)
  exact ⟨loaded, primary, steady, sameRun⟩

end Befunge

end Esoterica
