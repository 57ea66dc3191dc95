import Esoterica.Brainfuck.Machine
import Esoterica.Proofs.Brainfuck.Brackets
import Esoterica.Proofs.Machine.Reaches

/-!
How far the tape reaches. A cell is added only where the data pointer has just arrived, so that the tape
ends with the furthest cell on which the pointer has stood. All that an instruction looks up is there: the
cell under the pointer, the position of the instruction in the source, and the other end of its loop.
-/

namespace Esoterica.Brainfuck

/-- What an instruction can do to the registers. -/
inductive Alters (program : Program) (op : Op) (before : Registers) : Registers → Prop where
  /-- The tape is lengthened just so far that the pointer stands on it. -/
  | tape (tape : Tape) (extent : tape.length = max before.tape.length (tape.pointer + 1)) :
      Alters program op before { before with tape }
  | jump (isBracket : op.isBracket) :
      Alters program op before { before with ip := program.partner before.ip }

section Alters

variable {program : Program} {op : Op} {before after : Registers} {state : State Registers}

theorem Alters.stay (onTape : before.tape.pointer < before.tape.length) :
    Alters program op before before :=
  .tape before.tape (by omega)

theorem length_moveRight {tape : Tape} (onTape : tape.pointer < tape.length) :
    tape.moveRight.length = max tape.length (tape.moveRight.pointer + 1) := by
  simp only [Tape.moveRight, Tape.length] at onTape ⊢
  split
  · simp only [Array.size_push]
    omega
  · dsimp only
    omega

theorem Alters.modify (onTape : before.tape.pointer < before.tape.length) (change : Word → Word) :
    Alters program op before { before with tape := before.tape.modify change } := by
  apply Alters.tape
  simp only [Tape.modify, Tape.length, Array.size_modify] at onTape ⊢
  omega

theorem execute_alters (program : Program) (op : Op)
    (onTape : state.registers.tape.pointer < state.registers.tape.length) :
    Alters program op state.registers (execute program op state).state.registers := by
  cases op with
  | right => exact .tape _ (length_moveRight onTape)
  | left =>
      simp only [execute, Tape.moveLeft?]
      cases address : state.registers.tape.pointer with
      | zero => exact .stay onTape
      | succ address =>
          apply Alters.tape
          simp only [Tape.length] at onTape ⊢
          omega
  | increment | decrement => exact .modify onTape _
  | output => exact .stay onTape
  | input =>
      simp only [execute, State.readChar]
      cases state.input.readChar with
      | mk read rest =>
          cases read with
          | none => exact .stay onTape
          | some c => exact .modify onTape _
  | loopOpen =>
      simp only [execute]
      split
      · exact .jump rfl
      · exact .stay onTape
  | loopClose =>
      simp only [execute]
      split
      · exact .stay onTape
      · exact .jump rfl

theorem Alters.length_eq (alters : Alters program op before after)
    (onTape : before.tape.pointer < before.tape.length) :
    after.tape.length = max before.tape.length (after.tape.pointer + 1) := by
  cases alters with
  | tape _ extent => exact extent
  | jump =>
      dsimp only
      omega

/-- Only a move off the tape fails, and it changes nothing. -/
theorem state_of_execute_fails (fails : (execute program op state).fault.isSome) :
    (execute program op state).state = state := by
  cases op with
  | left =>
      simp only [execute, Tape.moveLeft?] at fails ⊢
      cases address : state.registers.tape.pointer with
      | zero => rfl
      | succ address => simp [address] at fails
  | input =>
      simp only [execute, State.readChar] at fails
      split at fails <;> cases fails
  | _ => cases fails

end Alters

namespace Program

variable {options : Options} {source : String} {program : Program} {index : Nat}

/-- Every instruction has a position and an entry in the table of partners. -/
theorem sizes_of_load (loaded : load options source = .ok program) :
    program.positions.size = program.ops.size ∧ program.partners.size = program.ops.size := by
  obtain ⟨_, _, parsed⟩ := bind_eq_ok_iff.mp loaded
  obtain ⟨instructions, _, built⟩ := bind_eq_ok_iff.mp parsed
  dsimp only at built
  split at built
  · cases built
  · cases built
    have linked (loops : List (Nat × Nat)) (table : Array Nat) :
        (loops.foldl link table).size = table.size := by
      induction loops generalizing table with
      | nil => rfl
      | cons loop loops inductionHypothesis =>
          rw [List.foldl_cons, inductionHypothesis, size_link]
    constructor
    · simp
    · rw [partnerTable_eq_link, linked]
      simp

theorem partners_of_load (loaded : load options source = .ok program)
    (within : index < program.ops.size) :
    program.partners[index]? = some (program.partner index) := by
  have inTable : index < program.partners.size := (sizes_of_load loaded).2 ▸ within
  simp [partner, inTable]

/-- A jump leads to a bracket of the program. -/
theorem partner_lt_of_load (loaded : load options source = .ok program) {op : Op}
    (here : program.ops[index]? = some op) (isBracket : op.isBracket) :
    program.partner index < program.ops.size := by
  obtain ⟨opened, closed⟩ := mem_loops_of_bracket loaded
  cases op with
  | loopOpen =>
      have closes := (brackets_of_mem_loops loaded (opened index here)).2
      exact (Array.getElem?_eq_some_iff.1 closes).1
  | loopClose =>
      have opens := (brackets_of_mem_loops loaded (closed index here)).1
      exact (Array.getElem?_eq_some_iff.1 opens).1
  | _ => cases isBracket

end Program

/-- The data pointer stands on the tape, and the pointer into the program is at most one past the last
instruction. -/
structure InPlace (program : Program) (registers : Registers) : Prop where
  onTape : registers.tape.pointer < registers.tape.length
  ip : registers.ip ≤ program.ops.size

section Runs

variable {options : Options} {source : String} {program : Program} {op : Op}
  {state start : State Registers} {cycles : Nat}

/-- A cycle carries out its instruction and moves on, if it moves on at all, by one. -/
theorem registers_of_step (options : Options) (decoded : program.ops[state.registers.ip]? = some op) :
    let executed := (execute program op state).state.registers
    let after := ((machine options program).step state).state.registers
    after = executed ∨ after = { executed with ip := executed.ip + 1 } := by
  intro executed after
  simp only [after, Machine.step, show (machine options program).decode state = some op from decoded]
  split
  · exact .inr rfl
  · exact .inl rfl

theorem InPlace.step (inPlace : InPlace program state.registers)
    (loaded : Program.load options source = .ok program) :
    let after := ((machine options program).step state).state.registers
    InPlace program after ∧
      after.tape.length = max state.registers.tape.length (after.tape.pointer + 1) := by
  intro after
  have onTape := inPlace.onTape
  cases decoded : program.ops[state.registers.ip]? with
  | none =>
      have same : after = state.registers := by
        simp only [after, Machine.step,
          show (machine options program).decode state = none from decoded, State.halt]
      rw [same]
      exact ⟨inPlace, by omega⟩
  | some op =>
      have alters := execute_alters program op onTape
      have extent := alters.length_eq onTape
      have within := (Array.getElem?_eq_some_iff.1 decoded).1
      have ip : (execute program op state).state.registers.ip < program.ops.size := by
        generalize (execute program op state).state.registers = executed at alters
        cases alters with
        | tape => exact within
        | jump isBracket => exact Program.partner_lt_of_load loaded decoded isBracket
      rcases registers_of_step options decoded with same | moved
      · simp only [after, same]
        exact ⟨⟨by omega, by omega⟩, extent⟩
      · simp only [after, moved]
        exact ⟨⟨by dsimp only; omega, ip⟩, extent⟩

/-- A cycle that fails changes nothing. -/
theorem state_of_step_fails (fails : ((machine options program).step state).fault.isSome) :
    ((machine options program).step state).state = state := by
  cases decoded : (machine options program).decode state with
  | none => simp [Machine.step, decoded] at fails
  | some op =>
      simp only [Machine.step, decoded] at fails ⊢
      split at fails
      · cases fails
      · rename_i stopped
        rw [if_neg stopped]
        exact state_of_execute_fails fails

theorem reaches_of_visits (visited : (machine options program).Visits start cycles state) :
    (machine options program).Reaches start cycles state := by
  cases visited with
  | reached reached => exact reached
  | failed reached _ fails => rwa [state_of_step_fails fails]

/-- The addresses that the data pointer has had within some cycles. -/
def trodden (machine : Machine Op Registers) (start : State Registers) (cycles : Nat) : Set Nat :=
  {address | ∃ earlier before, earlier ≤ cycles ∧ machine.Visits start earlier before ∧
    before.registers.tape.pointer = address}

theorem trodden_zero :
    trodden (machine options program) start 0 = {start.registers.tape.pointer} := by
  ext address
  constructor
  · rintro ⟨earlier, before, none, visited, rfl⟩
    cases Nat.le_zero.1 none
    cases reaches_of_visits visited
    rfl
  · rintro rfl
    exact ⟨0, start, Nat.le_refl 0, .reached .start, rfl⟩

theorem trodden_succ (reached : (machine options program).Reaches start (cycles + 1) state) :
    trodden (machine options program) start (cycles + 1) =
      insert state.registers.tape.pointer (trodden (machine options program) start cycles) := by
  ext address
  constructor
  · rintro ⟨earlier, before, ordered, visited, rfl⟩
    rcases Nat.lt_or_eq_of_le ordered with sooner | rfl
    · exact .inr ⟨earlier, before, Nat.le_of_lt_succ sooner, visited, rfl⟩
    · rw [(reaches_of_visits visited).unique reached]
      exact .inl rfl
  · rintro (rfl | ⟨earlier, before, ordered, visited, rfl⟩)
    · exact ⟨cycles + 1, state, Nat.le_refl _, .reached reached, rfl⟩
    · exact ⟨earlier, before, Nat.le_succ_of_le ordered, visited, rfl⟩

/-- What each cycle adds to the tape is what it adds to the addresses. -/
theorem furthest_of_reaches (loaded : Program.load options source = .ok program) {input : String}
    (reached : (machine options program).Reaches ((machine options program).initial input) cycles
      state) :
    InPlace program state.registers ∧ ∃ furthest,
      IsGreatest (trodden (machine options program) ((machine options program).initial input) cycles)
        furthest ∧ state.registers.tape.length = furthest + 1 := by
  induction reached with
  | start =>
      refine ⟨⟨Nat.zero_lt_one, Nat.zero_le _⟩, 0, ?_, rfl⟩
      rw [trodden_zero]
      exact isGreatest_singleton
  | @cycle cycles before next reached running stepped inductionHypothesis =>
      obtain ⟨inPlace, furthest, greatest, length⟩ := inductionHypothesis
      obtain ⟨nextInPlace, extent⟩ := inPlace.step loaded
      rw [stepped] at nextInPlace extent
      refine ⟨nextInPlace, max next.registers.tape.pointer furthest, ?_, ?_⟩
      · rw [trodden_succ (.cycle reached running stepped)]
        exact greatest.insert _
      · dsimp only at extent
        omega

end Runs

/-- In every state of a run, the tape is one cell longer than the greatest address that the data pointer
has had, the pointer stands on it, and the pointer into the program is at most one past the last
instruction. So for an instruction that is carried out there is a cell under the pointer and a position
in the source, and for a bracket there is the other end of its loop. -/
theorem tape_ends_at_furthest_address (options : Options) (source : String) (program : Program)
    (loaded : Program.load options source = .ok program) (input : String) :
    let machine := machine options program
    let start := machine.initial input
    ∀ cycles state, machine.Visits start cycles state →
      let registers := state.registers
      let tape := registers.tape
      (∃ furthest, IsGreatest (trodden machine start cycles) furthest ∧
        tape.length = furthest + 1) ∧
      tape.pointer < tape.length ∧ registers.ip ≤ program.ops.size ∧
      ∀ op, machine.decode state = some op →
        registers.ip < program.ops.size ∧ (tape.cells[tape.pointer]?).isSome ∧
        (program.positions[registers.ip]?).isSome ∧
        (op = .loopOpen → ∃ closing, (registers.ip, closing) ∈ program.loops ∧
          program.partners[registers.ip]? = some closing) ∧
        (op = .loopClose → ∃ opening, (opening, registers.ip) ∈ program.loops ∧
          program.partners[registers.ip]? = some opening) := by
  intro machine start cycles state visited registers tape
  obtain ⟨inPlace, furthest⟩ := furthest_of_reaches loaded (reaches_of_visits visited)
  refine ⟨furthest, inPlace.onTape, inPlace.ip, ?_⟩
  intro op decoded
  have here : program.ops[registers.ip]? = some op := decoded
  have within := (Array.getElem?_eq_some_iff.1 here).1
  have positioned : registers.ip < program.positions.size :=
    (Program.sizes_of_load loaded).1 ▸ within
  have cellThere : tape.pointer < tape.cells.size := inPlace.onTape
  obtain ⟨opened, closed⟩ := Program.mem_loops_of_bracket loaded
  refine ⟨within, by simp [cellThere], by simp [positioned], ?_, ?_⟩
  · rintro rfl
    exact ⟨_, opened registers.ip here, Program.partners_of_load loaded within⟩
  · rintro rfl
    exact ⟨_, closed registers.ip here, Program.partners_of_load loaded within⟩

/-- A loop at its end, with the pointer back on the first of two cells. -/
theorem tape_ends_at_second_address :
    let program : Program :=
      ⟨#[.increment, .loopOpen, .right, .increment, .left, .decrement, .loopClose],
        #[0, 1, 2, 3, 4, 5, 6], [(1, 6)], #[0, 6, 2, 3, 4, 5, 1]⟩
    let machine := machine {} program
    Program.load {} "+[>+<-]" = .ok program ∧
      ∃ state, machine.after? 6 (machine.initial "") = some state ∧
        state.registers = ⟨⟨#[0, 1], 0⟩, 6⟩ ∧ machine.decode state = some .loopClose ∧
        IsGreatest (trodden machine (machine.initial "") 6) 1 ∧
        (1, 6) ∈ program.loops ∧ (program.positions[6]?).isSome := by
  intro program machine
  have loaded : Program.load {} "+[>+<-]" = .ok program := rfl
  have closing : (machine.after? 6 (machine.initial "")).map (·.registers) =
      some ⟨⟨#[0, 1], 0⟩, 6⟩ := by decide +kernel
  obtain ⟨state, reached, registers⟩ := Option.map_eq_some_iff.1 closing
  have decoded : machine.decode state = some .loopClose := by
    show program.ops[state.registers.ip]? = _
    rw [registers]
    rfl
  have visited : machine.Visits (machine.initial "") 6 state :=
    .reached (Machine.reaches_of_after? rfl reached)
  obtain ⟨⟨furthest, greatest, length⟩, _, _, executed⟩ :=
    tape_ends_at_furthest_address {} "+[>+<-]" program loaded "" 6 state visited
  obtain ⟨_, _, positioned, _, closed⟩ := executed .loopClose decoded
  obtain ⟨opening, looped, partner⟩ := closed rfl
  rw [registers] at length looped positioned
  obtain rfl : furthest = 1 := by
    simp only [Tape.length] at length
    simpa using length.symm
  obtain rfl : opening = 1 := by simpa [program] using looped
  exact ⟨loaded, state, reached, registers, decoded, greatest, looped, positioned⟩

end Esoterica.Brainfuck
