import Esoterica.Proofs.Piet.Cycle
import Esoterica.Proofs.Program.Faults

/-!
How the pointer gets out of a block. It goes through all eight choices of a direction and a chooser in
a fixed order and leaves through the first open exit; without one the program ends.
-/

namespace Esoterica.Piet

/-- A direction to leave in and a side to leave on. -/
abbrev Choice := Direction × Chooser

/-- The choices in the order in which they are tried. -/
def schedule (dp : Direction) (cc : Chooser) : List Choice :=
  [(dp, cc), (dp, cc.toggled), (dp.turned 1, cc.toggled), (dp.turned 1, cc), (dp.turned 2, cc),
    (dp.turned 2, cc.toggled), (dp.turned 3, cc.toggled), (dp.turned 3, cc)]

/-- The choice after some failed attempts: the chooser and the pointer turn by turns. -/
def choiceAfter (dp : Direction) (cc : Chooser) : Nat → Choice
  | 0 => (dp, cc)
  | attempts + 1 =>
    let (direction, chooser) := choiceAfter dp cc attempts
    if (attempts + 1) % 2 = 1 then (direction, chooser.toggled) else (direction.clockwise, chooser)

theorem schedule_eq (dp : Direction) (cc : Chooser) :
    schedule dp cc = (List.range retryLimit).map (choiceAfter dp cc) := by
  cases cc <;> rfl

/-- No choice is left out. -/
theorem mem_schedule (dp : Direction) (cc : Chooser) (choice : Choice) :
    choice ∈ schedule dp cc := by
  obtain ⟨direction, chooser⟩ := choice
  cases dp <;> cases cc <;> cases direction <;> cases chooser <;> decide

theorem schedule_getElem? {dp : Direction} {cc : Chooser} {attempts : Nat} {choice : Choice} :
    (schedule dp cc)[attempts]? = some choice ↔
      attempts < retryLimit ∧ choiceAfter dp cc attempts = choice := by
  rw [schedule_eq]
  simp [List.getElem?_eq_some_iff]

/-- The codel beyond the exit of a block is neither black nor off the program. -/
def Block.Opens (block : Block) (codels : Codels) (choice : Choice) : Prop :=
  ∃ color, codels.get? (block.beyond choice.1 choice.2) = some color ∧ color ≠ .black

instance (block : Block) (codels : Codels) (choice : Choice) :
    Decidable (block.Opens codels choice) :=
  decidable_of_iff (codels.isOpen (block.beyond choice.1 choice.2) = true) Codels.isOpen_iff

theorem Block.not_opens_iff {block : Block} {codels : Codels} {choice : Choice} :
    ¬ block.Opens codels choice ↔ codels.isOpen (block.beyond choice.1 choice.2) = false := by
  rw [Opens, ← Codels.isOpen_iff, Bool.not_eq_true]

/-- The first choices are all closed, or there is a first open one among them. -/
theorem closed_or_first_open (codels : Codels) (block : Block) (dp : Direction) (cc : Chooser)
    (count : Nat) :
    (∀ attempts < count, ¬ block.Opens codels (choiceAfter dp cc attempts)) ∨
      ∃ attempts < count, block.Opens codels (choiceAfter dp cc attempts) ∧
        ∀ earlier < attempts, ¬ block.Opens codels (choiceAfter dp cc earlier) := by
  induction count with
  | zero => exact .inl (by simp)
  | succ count inductionHypothesis =>
      rcases inductionHypothesis with closed | ⟨attempts, within, first⟩
      · by_cases opened : block.Opens codels (choiceAfter dp cc count)
        · exact .inr ⟨count, Nat.lt_succ_self _, opened, closed⟩
        · refine .inl ?_
          intro attempts within
          rcases Nat.lt_or_eq_of_le (Nat.le_of_lt_succ within) with earlier | rfl
          · exact closed attempts earlier
          · exact opened
      · exact .inr ⟨attempts, Nat.lt_succ_of_lt within, first⟩

/-- The state with the pointer turned to a choice, after some failed attempts. -/
def facing (state : State Registers) (choice : Choice) (attempts : Nat) : State Registers :=
  state.update fun registers =>
    { registers with dp := choice.1, cc := choice.2, phase := .retrying attempts }

/-- The state after some failed attempts. -/
def waiting (state : State Registers) (attempts : Nat) : State Registers :=
  facing state (choiceAfter state.registers.dp state.registers.cc attempts) attempts

section Waiting

variable {options : Options} {codels : Codels} {state : State Registers} {block : Block}
  {attempts : Nat}

theorem waiting_zero (onBlock : OnBlock codels state.registers 0) : waiting state 0 = state := by
  have phase := onBlock.phase
  cases state
  simp only [waiting, facing, choiceAfter, State.update, ← phase]

theorem retry_waiting (more : attempts + 1 < retryLimit) :
    retry (waiting state attempts) (attempts + 1) = waiting state (attempts + 1) := by
  rw [retry_of_lt more]
  simp only [waiting, facing, choiceAfter, State.update, Phase.retrying]
  split <;> rfl

theorem onBlock_waiting (onBlock : OnBlock codels state.registers 0) (few : attempts < retryLimit) :
    OnBlock codels (waiting state attempts).registers attempts :=
  ⟨onBlock.chromatic, rfl, few, onBlock.clear⟩

/-- With a closed exit, a cycle only counts one more failed attempt. -/
theorem step_waiting (onBlock : OnBlock codels state.registers 0) (few : attempts < retryLimit)
    (found : Block.around? codels state.registers.position = some block)
    (closed : ¬ block.Opens codels (choiceAfter state.registers.dp state.registers.cc attempts)) :
    (machine options codels).step (waiting state attempts) =
      ⟨retry (waiting state attempts) (attempts + 1), none⟩ :=
  ((onBlock_waiting onBlock few).blocked found (Block.not_opens_iff.1 closed)).2

/-- As long as exits are closed, the pointer turns from each choice to the next. -/
theorem after?_waiting (onBlock : OnBlock codels state.registers 0) (running : state.ending = none)
    (found : Block.around? codels state.registers.position = some block)
    (few : attempts < retryLimit) (closed : ∀ earlier < attempts,
      ¬ block.Opens codels (choiceAfter state.registers.dp state.registers.cc earlier)) :
    (machine options codels).after? attempts state = some (waiting state attempts) := by
  induction attempts with
  | zero => rw [Machine.after?_zero, waiting_zero onBlock]
  | succ attempts inductionHypothesis =>
      have fewer := Nat.lt_of_succ_lt few
      have earlier := inductionHypothesis fewer fun _ within => closed _ (Nat.lt_succ_of_lt within)
      have stepped : (machine options codels).step (waiting state attempts) = _ :=
        step_waiting onBlock fewer found (closed attempts (Nat.lt_succ_self _))
      rw [retry_waiting few] at stepped
      exact Machine.after?_succ_eq_some_iff.2
        ⟨_, earlier, Machine.next?_eq_some_iff.2 ⟨stepped, running⟩⟩

/-- The eighth closed exit ends the program. -/
theorem endsAfter_of_closed (onBlock : OnBlock codels state.registers 0)
    (running : state.ending = none)
    (found : Block.around? codels state.registers.position = some block)
    (closed : ∀ choice, ¬ block.Opens codels choice) :
    (machine options codels).EndsAfter 7 state
      ⟨(waiting state 7).halt
        (.noExit state.registers.position.x state.registers.position.y), none⟩ := by
  have few : 7 < retryLimit := by decide
  have stepped : (machine options codels).step (waiting state 7) = _ :=
    step_waiting onBlock few found (closed _)
  rw [retry, if_pos (by decide)] at stepped
  refine ⟨_, after?_waiting onBlock running found few fun _ _ => closed _, ?_, stepped⟩
  rw [Machine.next?_eq_none_iff, stepped]
  exact .inr rfl

end Waiting

section Leave

variable {options : Options} {codels : Codels} {state : State Registers} {block : Block}

/-- The pointer moves as it tries to, unless the command on the way fails. -/
theorem OnBlock.moves {attempts : Nat} {op : Op} {target : Codel}
    (onBlock : OnBlock codels state.registers attempts) (running : state.ending = none)
    (decoded : decode codels state = some op) (moves : op.target? = some target) :
    (∃ fault, ((machine options codels).step state).fault = some fault ∧
        fault.kind = .stackOverflow) ∨
      ∃ next, (machine options codels).next? state = some next ∧
        next.registers.position = target := by
  have stepped : (machine options codels).step state = _ := step_of_target? decoded moves running
  have fails := execute_failsAmong op state
  rcases performed : execute op state with ⟨left, _ | fault⟩ <;> rw [performed] at stepped fails
  · refine .inr ⟨_, Machine.next?_eq_some_iff.2 ⟨stepped, ?_⟩, (placed_enter _ _ _ _).1⟩
    rw [ending_enter (onBlock.fresh moves performed), ← placedAs_of_execute moves performed]
    exact running
  · exact .inl ⟨fault, by rw [stepped]; rfl, by simpa using (fails fault rfl).1⟩

theorem onBlock_of_reaches {input : String} {cycles : Nat} {hue : Hue} {lightness : Lightness}
    (reached : (machine options codels).Reaches ((machine options codels).initial input) cycles state)
    (colored : codels.get? state.registers.position = some (.chromatic hue lightness))
    (seeking : state.registers.phase = .seekingExit) : OnBlock codels state.registers 0 := by
  cases poised_of_reaches reached with
  | astray closed => simp [Codels.isOpen_eq_false_iff, colored] at closed
  | sliding sliding => simp [sliding.white] at colored
  | @onBlock attempts onBlock =>
      cases attempts with
      | zero => exact onBlock
      | succ attempts => simp [onBlock.phase, Phase.retrying] at seeking

/-- A program that has ended is not about to leave a block. -/
theorem running_of_onBlock {input : String} {cycles : Nat}
    (reached : (machine options codels).Reaches ((machine options codels).initial input) cycles state)
    (onBlock : OnBlock codels state.registers 0) : state.ending = none := by
  by_contra ended
  rcases ended_of_reaches reached ended with ⟨closed, _⟩ | ⟨_, sliding, _⟩ | ⟨_, again, last, _⟩
  · have opened := onBlock.isOpen
    simp [closed] at opened
  · exact onBlock.not_white sliding.white
  · have phase := onBlock.phase.symm.trans again.phase
    cases last
    cases phase

end Leave

/-- The pointer leaves a block by a choice after some attempts in which it does nothing but turn. It
comes to the codel beyond the exit, unless the command on the way finds no room on the stack. -/
structure LeavesBy (options : Options) (codels : Codels) (state : State Registers) (block : Block)
    (attempts : Nat) (choice : Choice) : Prop where
  turns : (machine options codels).after? attempts state = some (facing state choice attempts)
  tries : ∃ op, decode codels (facing state choice attempts) = some op ∧
    op.target? = some (block.beyond choice.1 choice.2)
  leaves :
    (∃ fault, ((machine options codels).step (facing state choice attempts)).fault = some fault ∧
      fault.kind = .stackOverflow) ∨
    ∃ next, (machine options codels).after? (attempts + 1) state = some next ∧
      next.registers.position = block.beyond choice.1 choice.2
  outside : ¬ codels.Joined block.color state.registers.position (block.beyond choice.1 choice.2)

section FirstOpen

variable {options : Options} {codels : Codels} {state : State Registers} {block : Block}

/-- The pointer leaves by the first open choice. -/
theorem leavesBy_of_first_open {attempts : Nat} (onBlock : OnBlock codels state.registers 0)
    (running : state.ending = none)
    (found : Block.around? codels state.registers.position = some block)
    (few : attempts < retryLimit)
    (opened : block.Opens codels (choiceAfter state.registers.dp state.registers.cc attempts))
    (closed : ∀ earlier < attempts,
      ¬ block.Opens codels (choiceAfter state.registers.dp state.registers.cc earlier)) :
    LeavesBy options codels state block attempts
      (choiceAfter state.registers.dp state.registers.cc attempts) := by
  have isAround := Block.isAround_of_around? found
  have still := onBlock_waiting onBlock few
  obtain ⟨hue, lightness, colored⟩ := still.chromatic
  have decoded := decode_of_around? colored found
  have moves := target?_attempt (.chromatic hue lightness) block.size (Codels.isOpen_iff.2 opened)
  have turns : (machine options codels).after? attempts state = some (waiting state attempts) :=
    after?_waiting onBlock running found few closed
  refine ⟨turns, ⟨_, decoded, moves⟩, ?_, ?_⟩
  · rcases still.moves running decoded moves with failed | ⟨next, goesOn, moved⟩
    · exact .inl failed
    · exact .inr ⟨next, Machine.after?_succ_eq_some_iff.2 ⟨_, turns, goesOn⟩, moved⟩
  · rw [← isAround.mem_iff]
    exact (isAround.isExit _ _).next_notMem

end FirstOpen

/-- Whoever comes to a block leaves it by the first open choice. All eight choices are tried, in a
fixed order; if none is open, the program ends where it is with all that it had. -/
theorem leaves_by_first_open_choice (options : Options) (codels : Codels) (input : String)
    (cycles : Nat) (state : State Registers)
    (reached : (machine options codels).Reaches ((machine options codels).initial input) cycles state)
    (chromatic : ∃ hue lightness,
      codels.get? state.registers.position = some (.chromatic hue lightness))
    (seeking : state.registers.phase = .seekingExit) :
    ∃ block, Block.around? codels state.registers.position = some block ∧
      block.IsAround codels state.registers.position ∧
      (∀ direction chooser,
        IsExit block.codels direction chooser (block.exit direction chooser)) ∧
      ((∃ choice, block.Opens codels choice) →
        ∃ attempts choice, attempts + 1 ≤ 8 ∧
          (schedule state.registers.dp state.registers.cc)[attempts]? = some choice ∧
          block.Opens codels choice ∧
          (∀ earlier other, earlier < attempts →
            (schedule state.registers.dp state.registers.cc)[earlier]? = some other →
            ¬ block.Opens codels other) ∧
          LeavesBy options codels state block attempts choice) ∧
      ((∀ choice, ¬ block.Opens codels choice) →
        ∃ final, (machine options codels).EndsAfter 7 state ⟨final, none⟩ ∧
          final.ending =
            some (.noExit state.registers.position.x state.registers.position.y) ∧
          final.stack = state.stack ∧ final.output = state.output ∧ final.input = state.input ∧
          final.registers.position = state.registers.position) := by
  obtain ⟨hue, lightness, colored⟩ := chromatic
  have onBlock : OnBlock codels state.registers 0 := onBlock_of_reaches reached colored seeking
  have running := running_of_onBlock reached onBlock
  obtain ⟨block, found, _⟩ := Block.exists_around? colored
  have isAround := Block.isAround_of_around? found
  refine ⟨block, found, isAround, isAround.isExit, ?_, ?_⟩
  · rintro ⟨choice, opened⟩
    rcases closed_or_first_open codels block state.registers.dp state.registers.cc retryLimit with
      closed | ⟨attempts, few, first, closed⟩
    -- The open choice is one of the eight, so they are not all closed.
    · obtain ⟨index, scheduled⟩ := List.getElem?_of_mem
        (mem_schedule state.registers.dp state.registers.cc choice)
      obtain ⟨within, rfl⟩ := schedule_getElem?.1 scheduled
      exact (closed index within opened).elim
    · refine ⟨attempts, _, few, schedule_getElem?.2 ⟨few, rfl⟩, first, ?_,
        leavesBy_of_first_open onBlock running found few first closed⟩
      intro earlier other before scheduled
      obtain ⟨_, rfl⟩ := schedule_getElem?.1 scheduled
      exact closed earlier before
  · intro closed
    exact ⟨_, endsAfter_of_closed onBlock running found closed, rfl, rfl, rfl, rfl, rfl⟩

/-- A corner that is open below only is left by the third choice, and a codel alone is not left. -/
theorem leaves_corner_downward :
    let red := Color.chromatic 0 1
    let blue := Color.chromatic 4 1
    let corner := Codels.ofRows [[red, red, .black], [red, .black, .black], [blue, .black, .black]]
    let alone := Codels.ofRows [[red]]
    (∃ block, Block.around? corner ⟨0, 0⟩ = some block ∧
      ¬ block.Opens corner (.right, .left) ∧ ¬ block.Opens corner (.right, .right) ∧
      block.Opens corner (.down, .right) ∧
      LeavesBy {} corner ((machine {} corner).initial "") block 2 (.down, .right)) ∧
    ∃ final, (machine {} alone).EndsAfter 7 ((machine {} alone).initial "") ⟨final, none⟩ ∧
      final.ending = some (.noExit 0 0) := by
  intro red blue corner alone
  constructor
  · obtain ⟨block, found, _, _, leaves, _⟩ := leaves_by_first_open_choice {} corner "" 0
      ((machine {} corner).initial "") .start ⟨0, 1, by decide +kernel⟩ (by decide +kernel)
    have exits : (Block.around? corner ⟨0, 0⟩).all fun block =>
        ¬ block.Opens corner (.right, .left) ∧ ¬ block.Opens corner (.right, .right) ∧
          block.Opens corner (.down, .right) := by decide +kernel
    change Block.around? corner ⟨0, 0⟩ = some block at found
    rw [found, Option.all_some, decide_eq_true_eq] at exits
    obtain ⟨first, second, third⟩ := exits
    obtain ⟨attempts, choice, _, scheduled, opened, closed, leavesBy⟩ := leaves ⟨_, third⟩
    change (schedule .right .left)[attempts]? = some choice at scheduled
    refine ⟨block, found, first, second, third, ?_⟩
    have late : ¬ 2 < attempts := fun more => closed 2 (.down, .right) more rfl third
    obtain rfl | rfl | rfl : attempts = 0 ∨ attempts = 1 ∨ attempts = 2 := by omega
    · obtain rfl : (.right, .left) = choice := Option.some.inj scheduled
      exact (first opened).elim
    · obtain rfl : (.right, .right) = choice := Option.some.inj scheduled
      exact (second opened).elim
    · obtain rfl : (.down, .right) = choice := Option.some.inj scheduled
      exact leavesBy
  · obtain ⟨block, found, _, _, _, stays⟩ := leaves_by_first_open_choice {} alone "" 0
      ((machine {} alone).initial "") .start ⟨0, 1, by decide +kernel⟩ (by decide +kernel)
    have exits : (Block.around? alone ⟨0, 0⟩).all fun block =>
        ∀ choice ∈ schedule .right .left, ¬ block.Opens alone choice := by decide +kernel
    change Block.around? alone ⟨0, 0⟩ = some block at found
    rw [found, Option.all_some, decide_eq_true_eq] at exits
    obtain ⟨final, ends, ending, _⟩ := stays fun choice => exits choice (mem_schedule _ _ choice)
    exact ⟨final, ends, ending⟩

end Esoterica.Piet
