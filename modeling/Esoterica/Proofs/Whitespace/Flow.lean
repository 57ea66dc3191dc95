import Esoterica.Proofs.Machine.Reaches
import Esoterica.Proofs.Whitespace.RoundTrip
import Esoterica.Whitespace.Machine

/-!
Where a program goes on. Jumps lead behind marks and returns lead behind calls, so that the pointer never
gets further than one past the last instruction, and every instruction that is carried out has its
position in the source.
-/

namespace Esoterica.Whitespace

section Positions

/-- Positions in a source are counted up. -/
theorem positions_tokens (position : Nat) (chars : List Char) :
    ((tokens position chars).map Prod.snd).Sublist (List.range' position chars.length) := by
  induction chars generalizing position with
  | nil => exact List.Sublist.refl _
  | cons c chars inductionHypothesis =>
      have others := inductionHypothesis (position + 1)
      rw [List.length_cons, List.range'_succ, tokens]
      cases Symbol.ofChar? c with
      | none => exact others.cons position
      | some symbol => exact others.cons_cons position

/-- Each instruction starts at a symbol of its own. -/
theorem positions_of_readOps {index : Nat} {labels found : Labels} {tokens : List Token}
    {instructions : List (Op × Nat)}
    (read : readOps commands index labels tokens = .ok ⟨instructions, found⟩) :
    (instructions.map Prod.snd).Sublist (tokens.map Prod.snd) := by
  induction instructions generalizing index labels tokens with
  | nil => exact List.nil_sublist _
  | cons instruction instructions inductionHypothesis =>
      obtain ⟨symbol, rest, after, _, rfl, readOne, _, readRest⟩ := readOps_eq_cons_iff.1 read
      obtain ⟨⟨_, _, used, _, equal⟩, _⟩ := readOp_eq_ok_iff.1 readOne
      have shorter := readOp_shorter readOne
      have left : after <:+ rest := by
        rcases List.suffix_cons_iff.1 ⟨used, equal.symm⟩ with unread | left
        · rw [unread] at shorter
          exact (Nat.lt_irrefl _ shorter).elim
        · exact left
      have others := (inductionHypothesis readRest).trans (left.sublist.map Prod.snd)
      exact others.cons_cons instruction.2

/-- The positions of a parsed program go with its instructions and follow each other. -/
theorem positions_of_parse {source : String} {program : Program}
    (parsed : Program.parse source = .ok program) :
    program.positions.size = program.ops.size ∧ program.positions.toList.Pairwise (· < ·) := by
  obtain ⟨listing, read, _, _, rfl⟩ := parse_eq_ok_iff.1 parsed
  constructor
  · simp
  · exact List.Pairwise.sublist ((positions_of_readOps read).trans (positions_tokens 0 _))
      List.pairwise_lt_range'

end Positions

/-- A label of a parsed program leads to the index behind an instruction that marks it. -/
theorem marked_of_mem_labels {source : String} {program : Program} {label : Label} {target : Nat}
    (parsed : Program.parse source = .ok program) (member : (label, target) ∈ program.labels) :
    1 ≤ target ∧ target ≤ program.ops.size ∧ program.ops[target - 1]? = some (.mark label) := by
  rw [(labels_of_parse parsed).1, mem_marksFrom_iff] at member
  obtain ⟨index, marks, rfl⟩ := member
  rw [Array.getElem?_toList] at marks
  have within := (Array.getElem?_eq_some_iff.1 marks).1
  rw [Nat.zero_add, Nat.add_sub_cancel]
  exact ⟨by omega, by omega, marks⟩

/-- How an instruction sets where to go on: behind the mark of a label or, for a return, behind a call. The
pointer itself stays. -/
inductive Turns (program : Program) (op : Op) (before : Registers) : Registers → Prop where
  | jumps {label : Label} {target : Nat} (leads : program.target? label = some target) :
      Turns program op before { before with next := some target }
  | calls {label : Label} {target : Nat} (isCall : op = .call label)
      (room : before.calls.size < callLimit) (leads : program.target? label = some target) :
      Turns program op before
        { before with next := some target, calls := before.calls.push (before.ip + 1) }
  | returns {index : Nat} (latest : before.calls.back? = some index) :
      Turns program op before { before with next := some index, calls := before.calls.pop }

/-- What an instruction can do to the course of a program. One that fails or ends the program changes the
heap at most. -/
inductive Directs (program : Program) (op : Op) (state : State Registers) :
    Outcome (State Registers) → Prop where
  | passes {outcome : Outcome (State Registers)} (heap : Heap)
      (kept : outcome.state.registers = { state.registers with heap }) :
      Directs program op state outcome
  | turns {after : State Registers} (goesOn : after.ending = state.ending)
      (turns : Turns program op state.registers after.registers) :
      Directs program op state ⟨after, none⟩

section Instructions

variable {op : Op} {label : Label}

theorem jump_directs (program : Program) (state : State Registers) (label : Label) :
    Directs program op state (jump program state label) := by
  unfold jump
  cases leads : program.target? label with
  | none => exact .passes _ rfl
  | some target => exact .turns rfl (.jumps leads)

theorem call_directs (program : Program) (state : State Registers) (isCall : op = .call label) :
    Directs program op state (call program state label) := by
  unfold call
  split
  · exact .passes _ rfl
  · rename_i room
    cases leads : program.target? label with
    | none =>
        simp only [jump, leads]
        exact .passes _ rfl
    | some target =>
        simp only [jump, leads]
        exact .turns rfl (.calls isCall (Nat.lt_of_not_le room) leads)

theorem Directs.of_pop {program : Program} {state : State Registers}
    {outcome : Outcome (State Registers)} (directs : Directs program op state.pop.2 outcome) :
    Directs program op state outcome := by
  cases directs with
  | passes heap kept => exact .passes heap kept
  | turns goesOn turns => exact .turns goesOn turns

theorem execute_directs (program : Program) (op : Op) (state : State Registers) :
    Directs program op state (execute program op state) := by
  cases op with
  | copy =>
      simp only [execute]
      split <;> exact .passes _ rfl
  | call => exact call_directs program state rfl
  | jump label => exact jump_directs program state label
  | jumpZero label | jumpNegative label =>
      simp only [execute]
      split
      · exact (jump_directs program state.pop.2 label).of_pop
      · exact .passes _ rfl
  | ret =>
      simp only [execute]
      cases latest : state.registers.calls.back? with
      | none => exact .passes _ rfl
      | some index => exact .turns rfl (.returns latest)
  | _ => exact .passes _ rfl

end Instructions

/-- The registers lead nowhere but into the program or to its end. -/
structure OnCourse (program : Program) (registers : Registers) : Prop where
  pointer : registers.ip ≤ program.ops.size
  target : ∀ target, registers.next = some target → target ≤ program.ops.size
  depth : registers.calls.size ≤ callLimit
  returns : ∀ index ∈ registers.calls,
    ∃ call label, program.ops[call]? = some (.call label) ∧ index = call + 1

section Course

variable {options : Options} {source : String} {program : Program} {registers after : Registers}
  {state : State Registers} {op : Op}

/-- An address behind a call is at most one past the last instruction. -/
theorem OnCourse.return_le (onCourse : OnCourse program registers) {index : Nat}
    (member : index ∈ registers.calls) : index ≤ program.ops.size := by
  obtain ⟨call, _, found, rfl⟩ := onCourse.returns index member
  exact (Array.getElem?_eq_some_iff.1 found).1

/-- An instruction under the pointer keeps the program on its course. -/
theorem OnCourse.turns (onCourse : OnCourse program registers)
    (parsed : Program.parse source = .ok program)
    (decoded : program.ops[registers.ip]? = some op) (turns : Turns program op registers after) :
    OnCourse program after := by
  have within {label : Label} {target : Nat} (leads : program.target? label = some target) :
      ∀ next, some target = some next → next ≤ program.ops.size := by
    rintro next ⟨⟩
    have member := (lookup_eq_some_iff_mem (labels_of_parse parsed).2).1 leads
    exact (marked_of_mem_labels parsed member).2.1
  cases turns with
  | jumps leads => exact { onCourse with target := within leads }
  | calls isCall room leads =>
      refine ⟨onCourse.pointer, within leads, ?_, ?_⟩
      · rw [Array.size_push]
        exact room
      · intro index member
        rcases Array.mem_push.1 member with earlier | rfl
        · exact onCourse.returns index earlier
        · exact ⟨registers.ip, _, isCall ▸ decoded, rfl⟩
  | returns latest =>
      refine ⟨onCourse.pointer, ?_, ?_, ?_⟩
      · rintro next ⟨⟩
        exact onCourse.return_le (Array.mem_of_back? latest)
      · rw [Array.size_pop]
        exact Nat.le_trans (Nat.sub_le _ _) onCourse.depth
      · intro index member
        rw [← Array.mem_toList_iff, Array.toList_pop] at member
        exact onCourse.returns index (Array.mem_toList_iff.1 (List.dropLast_subset _ member))

theorem OnCourse.withHeap (onCourse : OnCourse program registers) (heap : Heap) :
    OnCourse program { registers with heap } where
  pointer := onCourse.pointer
  target := onCourse.target
  depth := onCourse.depth
  returns := onCourse.returns

/-- Moving on from an instruction of the program leads at most one past the last. -/
theorem OnCourse.advance (onCourse : OnCourse program registers)
    (within : registers.ip < program.ops.size) : OnCourse program (advance registers) where
  pointer := by
    show registers.next.getD (registers.ip + 1) ≤ program.ops.size
    cases set : registers.next with
    | none => exact within
    | some target => exact onCourse.target target set
  target := by
    intro target set
    cases set
  depth := onCourse.depth
  returns := onCourse.returns

theorem Turns.pointer (turns : Turns program op registers after) : after.ip = registers.ip := by
  cases turns <;> rfl

/-- The pointer stays during an instruction. -/
theorem Directs.pointer {outcome : Outcome (State Registers)}
    (directs : Directs program op state outcome) :
    outcome.state.registers.ip = state.registers.ip := by
  cases directs with
  | passes heap kept => rw [kept]
  | turns _ turns => exact turns.pointer

theorem OnCourse.directs {outcome : Outcome (State Registers)}
    (onCourse : OnCourse program state.registers) (parsed : Program.parse source = .ok program)
    (decoded : program.ops[state.registers.ip]? = some op)
    (directs : Directs program op state outcome) : OnCourse program outcome.state.registers := by
  cases directs with
  | passes heap kept =>
      rw [kept]
      exact onCourse.withHeap heap
  | turns _ turns => exact onCourse.turns parsed decoded turns

/-- Between two cycles no jump is pending. -/
structure Between (program : Program) (registers : Registers) : Prop where
  next : registers.next = none
  onCourse : OnCourse program registers

theorem Between.step (between : Between program state.registers)
    (parsed : Program.parse source = .ok program) (running : state.ending = none) :
    Between program ((machine options program).step state).state.registers := by
  cases decoded : (machine options program).decode state with
  | none =>
      simp only [Machine.step, decoded]
      exact between
  | some op =>
      have found : program.ops[state.registers.ip]? = some op := decoded
      have directs := execute_directs program op state
      have onCourse := between.onCourse.directs parsed found directs
      have within : (execute program op state).state.registers.ip < program.ops.size := by
        rw [directs.pointer]
        exact (Array.getElem?_eq_some_iff.1 found).1
      have moved : Between program
          ((execute program op state).state.update Whitespace.advance).registers :=
        ⟨rfl, onCourse.advance within⟩
      rw [Machine.step_eq_andThen decoded]
      show Between program (Outcome.andThen (execute program op state) _).state.registers
      generalize execute program op state = outcome at directs onCourse moved
      cases directs with
      | passes heap kept =>
          -- Whether the program moves on or not, there is no jump.
          have still : Between program outcome.state.registers :=
            ⟨by rw [kept]; exact between.next, onCourse⟩
          unfold Outcome.andThen
          split
          · simp only
            split
            · exact still
            · exact moved
          · exact still
      | @turns after goesOn turns =>
          simp only [Outcome.andThen, State.done, goesOn, running, Option.isSome_none,
            Bool.false_eq_true, if_false]
          exact moved

theorem between_of_visits {input : String} {cycles : Nat}
    (parsed : Program.parse source = .ok program)
    (visited : (machine options program).Visits ((machine options program).initial input) cycles
      state) : Between program state.registers := by
  apply visited.invariant fun state => Between program state.registers
  · refine ⟨rfl, Nat.zero_le _, ?_, Nat.zero_le _, ?_⟩
    · intro target set
      cases set
    · intro index member
      exact (Array.not_mem_empty index member).elim
  · intro state running between
    exact between.step parsed running

end Course

/-- In a loaded program every label leads behind its mark, and there is a position for every instruction,
each after the one before. Between cycles no jump is pending, the pointer is at most one past the last
instruction, and the addresses to return to, which are no more than the limit, lie behind calls. So an
instruction that is carried out is found in the program and among the positions, and it leads at most
one past the last. -/
theorem pointer_stays_in_program (options : Options) (source : String) (program : Program)
    (loaded : Program.load options source = .ok program) (input : String) :
    (∀ label target, (label, target) ∈ program.labels →
      1 ≤ target ∧ target ≤ program.ops.size ∧ program.ops[target - 1]? = some (.mark label)) ∧
    program.positions.size = program.ops.size ∧ program.positions.toList.Pairwise (· < ·) ∧
    let machine := machine options program
    ∀ cycles state, machine.Visits (machine.initial input) cycles state →
      let registers := state.registers
      registers.next = none ∧ registers.ip ≤ program.ops.size ∧ registers.calls.size ≤ 65536 ∧
      (∀ index ∈ registers.calls,
        ∃ call label, program.ops[call]? = some (.call label) ∧ index = call + 1) ∧
      ∀ op, machine.decode state = some op →
        registers.ip < program.ops.size ∧ registers.ip < program.positions.size ∧
        let after := (execute program op state).state.registers
        after.ip = registers.ip ∧ ∀ target, after.next = some target → target ≤ program.ops.size := by
  have parsed := (load_eq_ok_iff.1 loaded).2
  obtain ⟨sizes, increasing⟩ := positions_of_parse parsed
  refine ⟨fun label target => marked_of_mem_labels parsed, sizes, increasing, ?_⟩
  intro machine cycles state visited registers
  have between := between_of_visits parsed visited
  have onCourse := between.onCourse
  refine ⟨between.next, onCourse.pointer, onCourse.depth, onCourse.returns, ?_⟩
  intro op decoded
  have found : program.ops[registers.ip]? = some op := decoded
  have within := (Array.getElem?_eq_some_iff.1 found).1
  have directs := execute_directs program op state
  exact ⟨within, sizes ▸ within, directs.pointer, (onCourse.directs parsed found directs).target⟩

/-- A subroutine in its middle: the one address to return to is that behind the call, and the addition
starts at position 13. -/
theorem pointer_stays_in_subroutine :
    let source := "\n \t\t\n\n\n\n\n  \t\n\t   \n\t\n"
    let program : Program :=
      ⟨#[.call ⟨[true]⟩, .exit, .mark ⟨[true]⟩, .add, .ret], #[0, 5, 8, 13, 17], [(⟨[true]⟩, 3)]⟩
    let machine := machine {} program
    let called := (machine.initial "").update fun _ => { ip := 3, calls := #[1] }
    Program.load {} source = .ok program ∧ machine.Visits (machine.initial "") 1 called ∧
      machine.decode called = some .add ∧ called.registers.ip < program.positions.size ∧
      ∃ call label, program.ops[call]? = some (.call label) ∧ 1 = call + 1 := by
  intro source program machine called
  have parsed : (Program.parse source).toOption = some program := by decide +kernel
  have loaded : Program.load {} source = .ok program :=
    load_eq_ok_iff.2 ⟨by decide, toOption_eq_some_iff.1 parsed⟩
  have stepped : machine.step (machine.initial "") = ⟨called, none⟩ := rfl
  have visited : machine.Visits (machine.initial "") 1 called := .reached (.cycle .start rfl stepped)
  obtain ⟨_, _, _, between⟩ := pointer_stays_in_program {} source program loaded ""
  obtain ⟨_, _, _, returns, executed⟩ := between 1 called visited
  exact ⟨loaded, visited, rfl, (executed .add rfl).2.1, returns 1 (Array.mem_singleton.2 rfl)⟩

end Esoterica.Whitespace
