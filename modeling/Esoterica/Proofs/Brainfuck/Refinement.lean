import Esoterica.Brainfuck.Machine
import Esoterica.Proofs.Brainfuck.Code
import Esoterica.Proofs.Machine.Cycles

/-!
What programs in blocks mean, on a tape that never ends. The machine runs a loaded program to the same
end, if there is one, though it has only jumps and a tape that grows on demand.
-/

namespace Esoterica.Brainfuck

/-- What a program in blocks acts on: endless cells, the address in the data pointer, the input that
is left and the output so far. -/
@[ext] structure Scene where
  cells : Nat → Word
  pointer : Nat
  input : Input
  output : Output

namespace Scene

/-- All cells are zero, and the pointer stands on the first. -/
def start (input : String) : Scene where
  cells _ := 0
  pointer := 0
  input := .ofString input
  output := .empty

/-- The cell under the pointer. -/
def cell (scene : Scene) : Word :=
  scene.cells scene.pointer

/-- Changes the cell under the pointer. -/
def write (scene : Scene) (value : Word) : Scene :=
  { scene with cells := fun address => if address = scene.pointer then value else scene.cells address }

end Scene

/-- How a piece of a program ends: it goes through to its last instruction, or something in it ends
the program. -/
inductive Exit where
  | finished
  | inputEnded
  | offTape
deriving DecidableEq, Repr

/-- Carries out a single instruction. -/
def Basic.perform : Basic → Scene → Exit × Scene
  | right, scene => (.finished, { scene with pointer := scene.pointer + 1 })
  | left, scene =>
    match scene.pointer with
    | 0 => (.offTape, scene)
    | pointer + 1 => (.finished, { scene with pointer })
  | increment, scene => (.finished, scene.write (scene.cell + 1))
  | decrement, scene => (.finished, scene.write (scene.cell - 1))
  | output, scene => (.finished, { scene with output := scene.output.writeCode scene.cell })
  | input, scene =>
    match scene.input.remaining with
    | [] => (.inputEnded, scene)
    | c :: _ => (.finished, { scene.write (Word.ofChar c) with input := scene.input.skip 1 })

/-- The meaning of programs in blocks. A loop runs its body as long as the cell under the pointer is
not zero. -/
inductive Runs : Code → Scene → Exit → Scene → Prop where
  | done {scene : Scene} : Runs .done scene .finished scene
  | act {basic : Basic} {next : Code} {scene middle final : Scene} {exit : Exit}
      (first : basic.perform scene = (.finished, middle)) (rest : Runs next middle exit final) :
      Runs (.act basic next) scene exit final
  | stop {basic : Basic} {next : Code} {scene final : Scene} {exit : Exit}
      (first : basic.perform scene = (exit, final)) (early : exit ≠ .finished) :
      Runs (.act basic next) scene exit final
  | skip {body next : Code} {scene final : Scene} {exit : Exit}
      (zero : scene.cell = 0) (rest : Runs next scene exit final) :
      Runs (.loop body next) scene exit final
  | again {body next : Code} {scene middle final : Scene} {exit : Exit}
      (nonzero : scene.cell ≠ 0) (once : Runs body scene .finished middle)
      (rest : Runs (.loop body next) middle exit final) :
      Runs (.loop body next) scene exit final
  | leave {body next : Code} {scene final : Scene} {exit : Exit}
      (nonzero : scene.cell ≠ 0) (once : Runs body scene exit final) (early : exit ≠ .finished) :
      Runs (.loop body next) scene exit final

/-- The scene that a state of the machine shows: past the end of its tape there are zeros. -/
def Scene.ofState (state : State Registers) : Scene where
  cells address := (state.registers.tape.cells[address]?).getD 0
  pointer := state.registers.tape.pointer
  input := state.input
  output := state.output

/-- The machine is about to carry out the instruction at an index, with its pointer on the tape. -/
structure Stands (state : State Registers) (index : Nat) : Prop where
  ip : state.registers.ip = index
  onTape : state.registers.tape.pointer < state.registers.tape.cells.size
  running : state.ending = none

/-- The machine ended in the way that an exit names: past the last instruction, at a read of a spent
input, or at a move to the left from the first cell. -/
def EndsAs (program : Program) (outcome : Outcome (State Registers)) : Exit → Prop
  | .finished =>
    outcome.fault = none ∧ outcome.state.ending = some .ranOff ∧
      outcome.state.registers.ip = program.ops.size
  | .inputEnded =>
    outcome.fault = none ∧ outcome.state.ending = some .inputEnded ∧
      program.ops[outcome.state.registers.ip]? = some .input ∧ outcome.state.input.remaining = []
  | .offTape =>
    outcome.fault = some (offTape program outcome.state.registers.ip) ∧
      outcome.state.ending = none ∧ program.ops[outcome.state.registers.ip]? = some .left ∧
      outcome.state.registers.tape.pointer = 0

/-- On every input the machine ends if and only if a program in blocks does. Then both end in the
same way, with the same output, data pointer, input that is left, and cells. -/
structure Refines (options : Options) (program : Program) (code : Code) : Prop where
  ends : ∀ input : String,
    (∃ outcome, (machine options program).Ends ((machine options program).initial input) outcome) ↔
      ∃ exit scene, Runs code (.start input) exit scene
  agrees : ∀ (input : String) (outcome : Outcome (State Registers)) (exit : Exit) (scene : Scene),
    (machine options program).Ends ((machine options program).initial input) outcome →
      Runs code (.start input) exit scene →
      EndsAs program outcome exit ∧
        outcome.state.output = scene.output ∧
        outcome.state.registers.tape.pointer = scene.pointer ∧
        outcome.state.input = scene.input ∧
        ∀ address, (outcome.state.registers.tape.cells[address]?).getD 0 = scene.cells address

variable {options : Options} {program : Program} {state : State Registers} {index : Nat}

theorem stands_initial (options : Options) (program : Program) (input : String) :
    Stands ((machine options program).initial input) 0 :=
  ⟨rfl, by simp [Machine.initial, machine], rfl⟩

theorem scene_initial (options : Options) (program : Program) (input : String) :
    Scene.ofState ((machine options program).initial input) = .start input := by
  simp only [Scene.ofState, Scene.start, Machine.initial, machine, Scene.mk.injEq, and_self, and_true]
  funext address
  cases address <;> simp

theorem moveRight_cells (tape : Tape) (address : Nat) :
    (tape.moveRight.cells[address]?).getD 0 = (tape.cells[address]?).getD 0 := by
  unfold Tape.moveRight
  dsimp only
  split
  · rw [Array.getElem?_push]
    split
    · rename_i atEnd
      simp [atEnd]
    · rfl
  · rfl

theorem moveRight_onTape {tape : Tape} (onTape : tape.pointer < tape.cells.size) :
    tape.moveRight.pointer < tape.moveRight.cells.size := by
  unfold Tape.moveRight
  dsimp only
  split
  · simp only [Array.size_push]
    omega
  · dsimp only
    omega

theorem moveRight_pointer (tape : Tape) : tape.moveRight.pointer = tape.pointer + 1 := by
  unfold Tape.moveRight
  dsimp only
  split <;> rfl

theorem modify_cells {tape : Tape} (onTape : tape.pointer < tape.cells.size) (change : Word → Word)
    (address : Nat) :
    ((tape.modify change).cells[address]?).getD 0 =
      if address = tape.pointer then change tape.cell else (tape.cells[address]?).getD 0 := by
  simp only [Tape.modify, Array.getElem?_modify, Tape.cell]
  by_cases here : address = tape.pointer
  · subst here
    simp [onTape]
  · simp [here, Ne.symm here]

theorem modify_onTape {tape : Tape} (onTape : tape.pointer < tape.cells.size)
    (change : Word → Word) :
    (tape.modify change).pointer < (tape.modify change).cells.size := by
  simpa [Tape.modify] using onTape

/-- A change of the cell under the pointer shows in the scene. -/
theorem scene_modify (state : State Registers)
    (onTape : state.registers.tape.pointer < state.registers.tape.cells.size)
    (change : Word → Word) :
    Scene.ofState (Brainfuck.onTape state (·.modify change)) =
      (Scene.ofState state).write (change (Scene.ofState state).cell) := by
  apply Scene.ext
  · funext address
    exact modify_cells onTape change address
  · rfl
  · rfl
  · rfl

theorem scene_moveRight (state : State Registers) :
    Scene.ofState (onTape state Tape.moveRight) =
      { Scene.ofState state with pointer := (Scene.ofState state).pointer + 1 } := by
  apply Scene.ext
  · funext address
    exact moveRight_cells state.registers.tape address
  · exact moveRight_pointer state.registers.tape
  · rfl
  · rfl

/-- What an instruction does to the scene, the machine does to its state. -/
theorem execute_of_perform {basic : Basic} {middle : Scene}
    (onTape : state.registers.tape.pointer < state.registers.tape.cells.size)
    (performed : basic.perform (.ofState state) = (.finished, middle)) :
    ∃ after, execute program basic.op state = ⟨after, none⟩ ∧ Scene.ofState after = middle ∧
      after.registers.tape.pointer < after.registers.tape.cells.size ∧
      after.registers.ip = state.registers.ip ∧ after.ending = state.ending := by
  cases basic with
  | right =>
      simp only [Basic.perform, Prod.mk.injEq, true_and] at performed
      subst performed
      exact ⟨_, rfl, scene_moveRight state, moveRight_onTape onTape, rfl, rfl⟩
  | left =>
      cases pointer : state.registers.tape.pointer with
      | zero => simp [Basic.perform, Scene.ofState, pointer] at performed
      | succ address =>
          simp only [Basic.perform, Scene.ofState, pointer, Prod.mk.injEq, true_and] at performed
          subst performed
          refine ⟨Brainfuck.onTape state fun tape => { tape with pointer := address },
            by simp [execute, Basic.op, Tape.moveLeft?, pointer, Brainfuck.onTape, State.update],
            rfl, ?_, rfl, rfl⟩
          simp only [Brainfuck.onTape, State.update]
          omega
  | increment =>
      simp only [Basic.perform, Prod.mk.injEq, true_and] at performed
      subst performed
      exact ⟨_, rfl, scene_modify state onTape (· + 1), modify_onTape onTape _, rfl, rfl⟩
  | decrement =>
      simp only [Basic.perform, Prod.mk.injEq, true_and] at performed
      subst performed
      exact ⟨_, rfl, scene_modify state onTape (· - 1), modify_onTape onTape _, rfl, rfl⟩
  | output =>
      simp only [Basic.perform, Prod.mk.injEq, true_and] at performed
      subst performed
      exact ⟨_, rfl, rfl, onTape, rfl, rfl⟩
  | input =>
      cases remaining : state.input.remaining with
      | nil => simp [Basic.perform, Scene.ofState, remaining] at performed
      | cons c rest =>
          simp only [Basic.perform, Scene.ofState, remaining, Prod.mk.injEq, true_and] at performed
          subst performed
          let taken : State Registers := { state with input := state.input.skip 1 }
          have read : state.readChar = (some c, taken) := by
            simp [State.readChar, Input.readChar, remaining, taken]
          exact ⟨Brainfuck.onTape taken (·.modify fun _ => Word.ofChar c),
            by simp [execute, Basic.op, read], scene_modify taken onTape fun _ => Word.ofChar c,
            modify_onTape onTape _, rfl, rfl⟩

/-- A cycle that neither fails nor ends the program, once the instruction is known. -/
theorem next?_of_execute {op : Op} {after : State Registers} (stands : Stands state index)
    (instruction : program.ops[index]? = some op)
    (executed : execute program op state = ⟨after, none⟩) (running : after.ending = none) :
    (machine options program).next? state =
      some (after.update fun registers => { registers with ip := registers.ip + 1 }) := by
  rw [Machine.next?_eq_some_iff]
  have decoded : (machine options program).decode state = some op := by
    simpa [machine, stands.ip] using instruction
  refine ⟨?_, running⟩
  simp only [Machine.step, decoded]
  simp [machine, executed, State.done, running]

/-- The machine carries out an instruction after which the program goes on. -/
theorem next?_of_perform (options : Options) {basic : Basic} {middle : Scene} (stands : Stands state index)
    (instruction : program.ops[index]? = some basic.op)
    (performed : basic.perform (.ofState state) = (.finished, middle)) :
    ∃ after, (machine options program).next? state = some after ∧ Stands after (index + 1) ∧
      Scene.ofState after = middle := by
  obtain ⟨after, executed, shows, onTape, ip, ending⟩ := execute_of_perform stands.onTape performed
  have running : after.ending = none := ending.trans stands.running
  refine ⟨_, next?_of_execute stands instruction executed running, ⟨?_, onTape, running⟩, shows⟩
  rw [← stands.ip, ← ip]
  rfl

/-- An instruction that ends a program in blocks ends the machine in the same way. -/
theorem endsAfter_of_perform (options : Options) {basic : Basic} {exit : Exit} {final : Scene}
    (stands : Stands state index) (instruction : program.ops[index]? = some basic.op)
    (performed : basic.perform (.ofState state) = (exit, final)) (early : exit ≠ .finished) :
    ∃ outcome, (machine options program).EndsAfter 0 state outcome ∧
      EndsAs program outcome exit ∧ Scene.ofState outcome.state = final := by
  have decoded : program.ops[state.registers.ip]? = some basic.op := by rwa [stands.ip]
  have stepped (outcome : Outcome (State Registers))
      (executed : execute program basic.op state = outcome)
      (last : outcome.fault.isSome ∨ outcome.state.done) :
      (machine options program).EndsAfter 0 state outcome := by
    have step : (machine options program).step state = outcome := by
      cases fault : outcome.fault <;> simp_all [Machine.step, machine]
    exact Machine.endsAfter_zero_iff.mpr ⟨Machine.next?_eq_none_iff.mpr (step ▸ last), step⟩
  cases basic with
  | left =>
      cases pointer : state.registers.tape.pointer with
      | zero =>
          simp only [Basic.perform, Scene.ofState, pointer, Prod.mk.injEq] at performed
          obtain ⟨rfl, rfl⟩ := performed
          refine ⟨⟨state, some (offTape program state.registers.ip)⟩, stepped _ ?_ (.inl rfl), ?_, ?_⟩
          · simp [execute, Basic.op, Tape.moveLeft?, pointer]
          · exact ⟨rfl, stands.running, decoded, pointer⟩
          · simp [Scene.ofState, pointer]
      | succ address =>
          simp only [Basic.perform, Scene.ofState, pointer, Prod.mk.injEq] at performed
          exact absurd performed.1.symm early
  | input =>
      cases remaining : state.input.remaining with
      | nil =>
          simp only [Basic.perform, Scene.ofState, remaining, Prod.mk.injEq] at performed
          obtain ⟨rfl, rfl⟩ := performed
          refine ⟨⟨state.halt .inputEnded, none⟩, stepped _ ?_ (.inr rfl), ?_, rfl⟩
          · simp [execute, Basic.op, State.readChar, Input.readChar, remaining]
          · exact ⟨rfl, rfl, decoded, remaining⟩
      | cons c rest =>
          simp only [Basic.perform, Scene.ofState, remaining, Prod.mk.injEq] at performed
          exact absurd performed.1.symm early
  | right | increment | decrement | output =>
      simp only [Basic.perform, Prod.mk.injEq] at performed
      exact absurd performed.1.symm early

theorem next?_of_stay (options : Options) {op : Op} (stands : Stands state index)
    (instruction : program.ops[index]? = some op)
    (executed : execute program op state = ⟨state, none⟩) :
    ∃ after, (machine options program).next? state = some after ∧ Stands after (index + 1) ∧
      Scene.ofState after = Scene.ofState state :=
  ⟨_, next?_of_execute stands instruction executed stands.running,
    ⟨by simp [State.update, stands.ip], stands.onTape, stands.running⟩, rfl⟩

theorem next?_of_jump (options : Options) {op : Op} (stands : Stands state index)
    (instruction : program.ops[index]? = some op)
    (executed : execute program op state = ⟨jump program state, none⟩) :
    ∃ after, (machine options program).next? state = some after ∧
      Stands after (program.partner index + 1) ∧ Scene.ofState after = Scene.ofState state :=
  ⟨_, next?_of_execute stands instruction executed stands.running,
    ⟨by simp [jump, State.update, stands.ip], stands.onTape, stands.running⟩, rfl⟩

/-- At either bracket of a loop the machine goes into the body or past the loop, as the cell says. -/
theorem next?_of_bracket (options : Options) {body next : Code} (holds : program.Holds index (.loop body next))
    (stands : Stands state index ∨ Stands state (index + body.size + 1)) :
    ∃ after, (machine options program).next? state = some after ∧
      Stands after (if (Scene.ofState state).cell = 0 then index + body.size + 2 else index + 1) ∧
      Scene.ofState after = Scene.ofState state := by
  obtain ⟨⟨opening, toClosing⟩, -, ⟨closing, toOpening⟩, -⟩ := holds
  have cellEq : (Scene.ofState state).cell = state.registers.tape.cell := rfl
  obtain stands | stands := stands
  · by_cases zero : state.registers.tape.cell = 0
    · rw [cellEq, if_pos zero]
      have jumped := next?_of_jump options stands opening (by simp [execute, zero])
      rwa [toClosing] at jumped
    · rw [cellEq, if_neg zero]
      exact next?_of_stay options stands opening (by simp [execute, zero])
  · by_cases zero : state.registers.tape.cell = 0
    · rw [cellEq, if_pos zero]
      exact next?_of_stay options stands closing (by simp [execute, zero])
    · rw [cellEq, if_neg zero]
      have jumped := next?_of_jump options stands closing (by simp [execute, zero])
      rwa [toOpening] at jumped

/-- Where the machine may stand to start with a piece of a program: on its first instruction, or on
the bracket that closes the loop at its front. -/
def Enters (state : State Registers) (index : Nat) : Code → Prop
  | .loop body _ => Stands state index ∨ Stands state (index + body.size + 1)
  | _ => Stands state index

theorem Stands.enters (stands : Stands state index) (code : Code) : Enters state index code := by
  cases code with
  | loop body next => exact .inl stands
  | done => exact stands
  | act basic next => exact stands

/-- The machine comes to a scene in the way that an exit names: through to an index, or to its end. -/
def Leads (options : Options) (program : Program) (state : State Registers) (index : Nat)
    (final : Scene) : Exit → Prop
  | .finished =>
    ∃ cycles after, (machine options program).after? cycles state = some after ∧
      Stands after index ∧ Scene.ofState after = final
  | exit =>
    ∃ cycles outcome, (machine options program).EndsAfter cycles state outcome ∧
      EndsAs program outcome exit ∧ Scene.ofState outcome.state = final

theorem leads_of_ends {cycles : Nat} {outcome : Outcome (State Registers)} {exit : Exit}
    (early : exit ≠ .finished) (ends : (machine options program).EndsAfter cycles state outcome)
    (same : EndsAs program outcome exit) :
    Leads options program state index (Scene.ofState outcome.state) exit := by
  cases exit with
  | finished => exact absurd rfl early
  | inputEnded | offTape => exact ⟨cycles, outcome, ends, same, rfl⟩

theorem Leads.early {final : Scene} {exit : Exit} (leads : Leads options program state index final exit)
    (early : exit ≠ .finished) (other : Nat) : Leads options program state other final exit := by
  cases exit with
  | finished => exact absurd rfl early
  | inputEnded => exact leads
  | offTape => exact leads

theorem Leads.prepend {cycles : Nat} {middle : State Registers} {final : Scene} {exit : Exit}
    (begun : (machine options program).after? cycles state = some middle)
    (leads : Leads options program middle index final exit) :
    Leads options program state index final exit := by
  cases exit with
  | finished =>
      obtain ⟨more, after, reached, stands, shows⟩ := leads
      refine ⟨cycles + more, after, ?_, stands, shows⟩
      rw [Machine.after?_add, begun, Option.bind_some, reached]
  | inputEnded | offTape =>
      obtain ⟨more, outcome, ends, same, shows⟩ := leads
      exact ⟨cycles + more, outcome, ends.prepend begun, same, shows⟩

/-- The machine follows a program in blocks to where that ends. -/
theorem leads_of_runs (options : Options) {code : Code} {scene final : Scene} {exit : Exit}
    (runs : Runs code scene exit final) (holds : program.Holds index code)
    (enters : Enters state index code) (shows : Scene.ofState state = scene) :
    Leads options program state (index + code.size) final exit := by
  -- The induction is on the run in blocks. A loop that runs again is entered at its closing bracket.
  induction runs generalizing state index with
  | done => exact ⟨0, state, rfl, enters, shows⟩
  | act first rest inductionHypothesis =>
      obtain ⟨instruction, nextHolds⟩ := holds
      rw [← shows] at first
      obtain ⟨after, stepped, stands, shows⟩ := next?_of_perform options enters instruction first
      have leads := inductionHypothesis nextHolds (stands.enters _) shows
      rw [Code.size, Nat.add_comm _ 1, ← Nat.add_assoc]
      exact leads.prepend (Machine.after?_one.trans stepped)
  | stop first early =>
      obtain ⟨instruction, -⟩ := holds
      rw [← shows] at first
      obtain ⟨outcome, ends, same, rfl⟩ :=
        endsAfter_of_perform options enters instruction first early
      exact leads_of_ends early ends same
  | @skip body next scene final exit zero rest inductionHypothesis =>
      obtain ⟨after, stepped, stands, same⟩ := next?_of_bracket options holds enters
      rw [shows, if_pos zero] at stands
      have leads := inductionHypothesis holds.2.2.2 (stands.enters _) (same.trans shows)
      have landing : index + body.size + 2 + next.size = index + (body.loop next).size := by
        simp only [Code.size]
        omega
      rw [landing] at leads
      exact leads.prepend (Machine.after?_one.trans stepped)
  | @again body next scene middle final exit nonzero once rest bodyHypothesis restHypothesis =>
      obtain ⟨after, stepped, stands, same⟩ := next?_of_bracket options holds enters
      rw [shows, if_neg nonzero] at stands
      obtain ⟨cycles, closing, reached, atClosing, shows⟩ :=
        bodyHypothesis holds.2.1 (stands.enters _) (same.trans shows)
      rw [Nat.add_right_comm] at atClosing
      have leads := restHypothesis holds (.inr atClosing) shows
      exact (leads.prepend reached).prepend (Machine.after?_one.trans stepped)
  | leave nonzero once early inductionHypothesis =>
      obtain ⟨after, stepped, stands, same⟩ := next?_of_bracket options holds enters
      rw [shows, if_neg nonzero] at stands
      have leads := inductionHypothesis holds.2.1 (stands.enters _) (same.trans shows)
      exact (leads.early early _).prepend (Machine.after?_one.trans stepped)

/-- Where the machine ends, the program in blocks ends. -/
theorem runs_of_endsAfter {cycles : Nat} {code : Code} {outcome : Outcome (State Registers)}
    (holds : program.Holds index code) (enters : Enters state index code)
    (ends : (machine options program).EndsAfter cycles state outcome) :
    ∃ exit final, Runs code (.ofState state) exit final := by
  -- The induction is on the cycles that are left: every instruction and every bracket takes one.
  induction cycles using Nat.strongRecOn generalizing state index code with
  | ind cycles inductionHypothesis =>
      have rest {after : State Registers} {position : Nat} {code : Code}
          (stepped : (machine options program).next? state = some after)
          (holds : program.Holds position code) (enters : Enters after position code) :
          ∃ exit final, Runs code (.ofState after) exit final := by
        obtain ⟨left, total, later⟩ := ends.drop (Machine.after?_one.trans stepped)
        exact inductionHypothesis left (by omega) holds enters later
      cases code with
      | done => exact ⟨_, _, .done⟩
      | act basic next =>
          obtain ⟨instruction, nextHolds⟩ := holds
          rcases performed : basic.perform (.ofState state) with ⟨exit, middle⟩
          by_cases finished : exit = .finished
          · subst finished
            obtain ⟨after, stepped, stands, rfl⟩ :=
              next?_of_perform options enters instruction performed
            obtain ⟨exit, final, runs⟩ := rest stepped nextHolds (stands.enters _)
            exact ⟨exit, final, .act performed runs⟩
          · exact ⟨exit, middle, .stop performed finished⟩
      | loop body next =>
          obtain ⟨after, stepped, stands, same⟩ := next?_of_bracket options holds enters
          by_cases zero : (Scene.ofState state).cell = 0
          · rw [if_pos zero] at stands
            obtain ⟨exit, final, runs⟩ := rest stepped holds.2.2.2 (stands.enters _)
            rw [same] at runs
            exact ⟨exit, final, .skip zero runs⟩
          · rw [if_neg zero] at stands
            obtain ⟨exit, final, runs⟩ := rest stepped holds.2.1 (stands.enters _)
            rw [same] at runs
            by_cases finished : exit = .finished
            · subst finished
              obtain ⟨inBody, closing, reached, atClosing, rfl⟩ :=
                leads_of_runs options runs holds.2.1 (stands.enters _) same
              rw [Nat.add_right_comm] at atClosing
              obtain ⟨fromBody, total, later⟩ := ends.drop (Machine.after?_one.trans stepped)
              obtain ⟨fromClosing, rest, later⟩ := later.drop reached
              obtain ⟨exit, final, again⟩ :=
                inductionHypothesis fromClosing (by omega) holds (.inr atClosing) later
              exact ⟨exit, final, .again zero runs again⟩
            · exact ⟨exit, final, .leave zero runs finished⟩

/-- Past its last instruction the machine ends the program. -/
theorem endsAfter_of_ranOff (options : Options) (stands : Stands state program.ops.size) :
    ∃ outcome, (machine options program).EndsAfter 0 state outcome ∧
      EndsAs program outcome .finished ∧ Scene.ofState outcome.state = Scene.ofState state := by
  have step : (machine options program).step state = ⟨state.halt .ranOff, none⟩ := by
    simp [Machine.step, machine, stands.ip]
  refine ⟨⟨state.halt .ranOff, none⟩, ?_, ⟨rfl, rfl, stands.ip⟩, rfl⟩
  exact Machine.endsAfter_zero_iff.mpr ⟨Machine.next?_eq_none_iff.mpr (step ▸ .inr rfl), step⟩

/-- The machine ends where the program in blocks ends, and in the same way. -/
theorem ends_of_runs (options : Options) {code : Code} {input : String} {exit : Exit} {final : Scene}
    (size : code.size = program.ops.size) (holds : program.Holds 0 code)
    (runs : Runs code (.start input) exit final) :
    ∃ outcome, (machine options program).Ends ((machine options program).initial input) outcome ∧
      EndsAs program outcome exit ∧ Scene.ofState outcome.state = final := by
  have leads := leads_of_runs options runs holds
    ((stands_initial options program input).enters code) (scene_initial options program input)
  rw [Nat.zero_add, size] at leads
  cases exit with
  | finished =>
      obtain ⟨cycles, last, reached, stands, rfl⟩ := leads
      obtain ⟨outcome, ends, same, shows⟩ := endsAfter_of_ranOff options stands
      exact ⟨outcome, ⟨_, ends.prepend reached⟩, same, shows⟩
  | inputEnded | offTape =>
      obtain ⟨cycles, outcome, ends, same, shows⟩ := leads
      exact ⟨outcome, ⟨cycles, ends⟩, same, shows⟩

/-- Every program that loads parses to a program in blocks, which the machine refines. -/
theorem machine_refines_blocks (options : Options) (source : String) (program : Program)
    (loaded : Program.load options source = .ok program) :
    ∃ code, Code.parse program.ops.toList = some code ∧ code.ops = program.ops.toList ∧
      Refines options program code := by
  obtain ⟨code, parsed, size, holds⟩ := Program.holds_of_load loaded
  refine ⟨code, parsed, Code.ops_of_parse parsed, ?_, ?_⟩
  · intro input
    constructor
    · rintro ⟨outcome, cycles, ends⟩
      have runs := runs_of_endsAfter holds ((stands_initial options program input).enters code) ends
      rwa [scene_initial] at runs
    · rintro ⟨exit, scene, runs⟩
      obtain ⟨outcome, ends, -⟩ := ends_of_runs options size holds runs
      exact ⟨outcome, ends⟩
  · intro input outcome exit scene ends runs
    obtain ⟨other, otherEnds, same, rfl⟩ := ends_of_runs options size holds runs
    obtain rfl := ends.unique otherEnds
    exact ⟨same, rfl, rfl, rfl, fun _ => rfl⟩

/-- The program that echoes its input has a loop whose body reads, and may end there. -/
theorem machine_refines_echo :
    Refines {} ⟨#[.input, .loopOpen, .output, .input, .loopClose], #[0, 1, 2, 3, 4], [(1, 4)],
        #[0, 4, 2, 3, 1]⟩
      (.act .input (.loop (.act .output (.act .input .done)) .done)) := by
  obtain ⟨code, parsed, -, refines⟩ := machine_refines_blocks {} ",[.,]" _ rfl
  obtain rfl : Code.act .input (.loop (.act .output (.act .input .done)) .done) = code :=
    Option.some.inj parsed
  exact refines

end Esoterica.Brainfuck
