import Esoterica.Proofs.Machine.Reaches
import Esoterica.Proofs.Malbolge.Loader

/-!
What a cycle does to the memory and the registers. It writes at most under the two pointers, and all
that it writes are words, but the accumulator takes any character from the input.
-/

namespace Esoterica.Malbolge

/-- The ranges of the registers, after some characters have been read. The greatest code point is well
above the greatest word. -/
structure InRange (read : List Char) (registers : Registers) : Prop where
  words : AllWords registers.memory
  code : registers.c < memorySize
  data : registers.d < memorySize
  target : ∀ target, registers.jump = some target → target < memorySize
  accumulator : 0 ≤ registers.a ∧ registers.a ≤ 1114111
  word : (∀ c ∈ read, c.toNat ≤ 59048) → IsWord registers.a

section Ranges

variable {read : List Char} {registers : Registers}

theorem InRange.store (inRange : InRange read registers) {value : Int} (word : IsWord value) :
    InRange read (store registers value) where
  words := inRange.words.set word _
  code := inRange.code
  data := inRange.data
  target := inRange.target
  accumulator := by
    obtain ⟨lower, upper⟩ := word
    unfold greatestWord at upper
    exact ⟨lower, by change value ≤ 1114111; omega⟩
  word := fun _ => word

theorem following_lt (address : Nat) : following address < memorySize :=
  Nat.mod_lt _ (by decide)

theorem InRange.advance (inRange : InRange read registers) : InRange read (advance registers) where
  words := inRange.words.set (isWord_of_printable (encrypt_printable _)) _
  code := by
    simp only [Malbolge.advance]
    cases jump : registers.jump with
    | none => exact following_lt _
    | some target => exact inRange.target target jump
  data := following_lt _
  target := by simp [Malbolge.advance]
  accumulator := inRange.accumulator
  word := inRange.word

/-- The accumulator takes a character or, at the end of the input, a word. -/
theorem InRange.receive (inRange : InRange read registers) {more : List Char} {value : Int}
    (code : 0 ≤ value ∧ value ≤ 1114111)
    (word : (∀ c ∈ read ++ more, c.toNat ≤ 59048) → IsWord value) :
    InRange (read ++ more) { registers with a := value } where
  words := inRange.words
  code := inRange.code
  data := inRange.data
  target := inRange.target
  accumulator := code
  word := word

/-- An instruction keeps the ranges. The characters that it reads are added to those read before. -/
theorem InRange.execute {state : State Registers} (inRange : InRange read state.registers) (op : Op) :
    ∃ more, more ++ (execute op state).state.input.remaining = state.input.remaining ∧
      InRange (read ++ more) (execute op state).state.registers := by
  have withoutInput {after : State Registers} (unread : after.input = state.input)
      (kept : InRange read after.registers) :
      ∃ more, more ++ after.input.remaining = state.input.remaining ∧
        InRange (read ++ more) after.registers :=
    ⟨[], by rw [unread, List.nil_append], by rwa [List.append_nil]⟩
  cases op with
  | input =>
      cases unread : state.input.remaining with
      | nil =>
          have spent : state.input.readChar = (none, state.input) := by
            simp only [Input.readChar, unread]
          simp only [Malbolge.execute, State.readChar, spent]
          exact ⟨[], unread, inRange.receive ⟨by decide, by decide⟩ fun _ => ⟨by decide, by decide⟩⟩
      | cons c rest =>
          have taken : state.input.readChar = (some c, state.input.skip 1) := by
            simp only [Input.readChar, unread]
          have code := Text.toNat_le c
          simp only [Malbolge.execute, State.readChar, taken]
          simp only [Option.map_some, Option.getD_some]
          have behind : (state.input.skip 1).remaining = rest := congrArg (List.drop 1) unread
          refine ⟨[c], congrArg (List.cons c) behind, inRange.receive (by omega) fun small => ?_⟩
          have fits := small c (by simp)
          unfold IsWord greatestWord
          omega
  | jump => exact withoutInput rfl { inRange with target := by rintro _ ⟨⟩; exact reduce_lt _ }
  | move => exact withoutInput rfl { inRange with data := reduce_lt _ }
  | rotate => exact withoutInput rfl (inRange.store (isWord_rotate _))
  | crazy => exact withoutInput rfl (inRange.store (isWord_crazy _ _))
  | output | nop | halt => exact withoutInput rfl inRange

end Ranges

section Cycle

variable {options : Options} {program : Program} {state : State Registers}

theorem code_execute (op : Op) (state : State Registers) :
    (execute op state).state.registers.c = state.registers.c := by
  cases op <;> rfl

/-- An instruction writes at most under the data pointer. -/
theorem getElem?_execute (op : Op) {address : Nat} (other : address ≠ state.registers.d) :
    (execute op state).state.registers.memory[address]? = state.registers.memory[address]? := by
  cases op with
  | rotate | crazy => exact Vector.getElem?_setIfInBounds_ne (Ne.symm other)
  | _ => rfl

/-- No instruction fails, and only one ends the program. -/
theorem execute_goesOn {op : Op} (notHalt : op ≠ .halt) (state : State Registers) :
    (execute op state).fault = none ∧ (execute op state).state.ending = state.ending := by
  cases op with
  | halt => exact (notHalt rfl).elim
  | _ => exact ⟨rfl, rfl⟩

/-- A cycle carries out the instruction and then moves on. -/
theorem step_eq_of_decode {op : Op} (running : state.ending = none)
    (decoded : (machine options program).decode state = some op) (notHalt : op ≠ .halt) :
    (machine options program).step state = ⟨(execute op state).state.update advance, none⟩ := by
  obtain ⟨succeeds, goesOn⟩ := execute_goesOn notHalt state
  rw [Machine.step_eq_andThen decoded]
  change (execute op state).andThen _ = _
  simp only [Outcome.andThen, succeeds, State.done, goesOn, running, Option.isSome_none,
    Bool.false_eq_true, if_false]
  rfl

/-- The only other cycle stops the program and leaves the registers alone. -/
theorem step_cases (options : Options) (program : Program) (running : state.ending = none) :
    (machine options program).step state = ⟨state.halt .stopped, none⟩ ∨
      ∃ op, (machine options program).step state =
        ⟨(execute op state).state.update advance, none⟩ := by
  have decoded : (machine options program).decode state =
    some (Op.decode (cell state.registers.memory state.registers.c) state.registers.c) := rfl
  generalize Op.decode (cell state.registers.memory state.registers.c) state.registers.c = op
    at decoded
  by_cases stops : op = .halt
  · subst stops
    rw [Machine.step_eq_andThen decoded]
    exact .inl rfl
  · exact .inr ⟨op, step_eq_of_decode running decoded stops⟩

/-- The registers between two cycles of a run on an input. -/
structure Between (input : String) (state : State Registers) : Prop where
  jump : state.registers.jump = none
  read : ∃ read, read ++ state.input.remaining = input.toList ∧ InRange read state.registers

theorem Between.step {input : String} (between : Between input state) (running : state.ending = none) :
    Between input ((machine options program).step state).state := by
  rcases step_cases options program running with stopped | ⟨op, moved⟩
  · rw [stopped]
    exact ⟨between.jump, between.read⟩
  · rw [moved]
    obtain ⟨read, whole, inRange⟩ := between.read
    obtain ⟨more, rest, executed⟩ := inRange.execute op
    refine ⟨rfl, read ++ more, ?_, executed.advance⟩
    rw [List.append_assoc, ← whole, ← rest]
    rfl

theorem between_of_reaches {source input : String} {cycles : Nat}
    (loaded : Program.load options source = .ok program)
    (reached : (machine options program).Reaches ((machine options program).initial input) cycles
      state) : Between input state := by
  refine (Machine.Visits.reached reached).invariant (Between input) ?_
    fun state running between => between.step running
  obtain ⟨_, fit, rfl⟩ := load_eq_ok_iff.1 loaded
  have zero : IsWord 0 := ⟨by decide, by decide⟩
  have first : 0 < memorySize := by decide
  refine ⟨rfl, [], rfl, ⟨allWords_image fun value member => ?_, first, first, nofun,
    ⟨zero.1, Int.le_trans zero.2 (by decide)⟩, fun _ => zero⟩⟩
  rw [List.mem_toArray, List.mem_map] at member
  obtain ⟨c, member, rfl⟩ := member
  obtain ⟨index, found⟩ := List.mem_iff_getElem?.1 member
  have fits := fit index c found
  have lower := fits.lower
  have upper := fits.upper
  exact isWord_of_printable (by omega)

/-- The code pointer's cell is replaced by a printable character, and besides it only the cell under the
data pointer may change. -/
theorem memory_of_step (running : state.ending = none)
    (goesOn : ((machine options program).step state).state.ending = none)
    (code : state.registers.c < memorySize) :
    let memory := ((machine options program).step state).state.registers.memory
    (∀ address : Nat, address ≠ state.registers.c → address ≠ state.registers.d →
      memory[address]? = state.registers.memory[address]?) ∧
    ∃ value, memory[state.registers.c]? = some value ∧ 33 ≤ value ∧ value ≤ 126 := by
  rcases step_cases options program running with stopped | ⟨op, moved⟩
  · rw [stopped] at goesOn
    cases goesOn
  · rw [moved]
    simp only [State.update, advance, code_execute]
    refine ⟨fun address notCode notData => ?_, ?_⟩
    · rw [Vector.getElem?_setIfInBounds_ne (Ne.symm notCode)]
      exact getElem?_execute op notData
    · exact ⟨_, Vector.getElem?_setIfInBounds_self_of_lt code, encrypt_printable _⟩

end Cycle

/-- Between cycles the memory holds words only, both pointers point into it and no jump is pending. The
accumulator holds a word unless a character above the greatest word has been read, and never more than
a character. A cycle that does not stop the program leaves all cells alone but the one that was carried
out, which becomes a printable character, and the one under the data pointer. -/
theorem registers_between_cycles (options : Options) (source : String) (program : Program)
    (loaded : Program.load options source = .ok program) (input : String) :
    let machine := machine options program
    ∀ cycles state, machine.Reaches (machine.initial input) cycles state →
      let registers := state.registers
      registers.memory.toArray.size = 59049 ∧
      (∀ (address : Nat) (value : Int), registers.memory[address]? = some value →
        0 ≤ value ∧ value ≤ 59048) ∧
      registers.c < 59049 ∧ registers.d < 59049 ∧ registers.jump = none ∧
      (0 ≤ registers.a ∧ registers.a ≤ 1114111) ∧
      (∃ read, read ++ state.input.remaining = input.toList ∧
        ((∀ c ∈ read, c.toNat ≤ 59048) → 0 ≤ registers.a ∧ registers.a ≤ 59048)) ∧
      (registers.memory[registers.c]?.isSome ∧ registers.memory[registers.d]?.isSome) ∧
      (state.ending = none →
        let next := (machine.step state).state
        next.ending = none →
        (∀ address : Nat, address ≠ registers.c → address ≠ registers.d →
          next.registers.memory[address]? = registers.memory[address]?) ∧
        ∃ value, next.registers.memory[registers.c]? = some value ∧ 33 ≤ value ∧ value ≤ 126) := by
  intro machine cycles state reached registers
  have between := between_of_reaches loaded reached
  obtain ⟨read, whole, inRange⟩ := between.read
  refine ⟨registers.memory.size_toArray, inRange.words, inRange.code, inRange.data, between.jump,
    inRange.accumulator, ⟨read, whole, inRange.word⟩, ?_, ?_⟩
  · simp only [isSome_getElem?]
    exact ⟨inRange.code, inRange.data⟩
  · intro running next goesOn
    exact memory_of_step running goesOn inRange.code

/-- The program that echoes one character reads one above the greatest word. Both pointers are at the
first cell then, so that no other cell changes. -/
theorem registers_between_cycles_echo :
    let program := programOf "ubO".toList
    let machine := machine {} program
    Program.load {} "ubO" = .ok program ∧
      ∃ state, machine.Reaches (machine.initial "𝄞") 1 state ∧ state.registers.a = 119070 ∧
        (0 ≤ state.registers.a ∧ state.registers.a ≤ 1114111) ∧
        state.registers.c < 59049 ∧ state.registers.d < 59049 ∧ state.registers.jump = none ∧
        (∀ address : Nat, address ≠ 0 →
          state.registers.memory[address]? = program.image[address]?) ∧
        ∃ value, state.registers.memory[0]? = some value ∧ 33 ≤ value ∧ value ≤ 126 := by
  have fit : AllFit 0 "ubO".toList := by
    have cells : loadCells 0 "ubO".toList = .ok [117, 98, 79] := rfl
    exact (loadCells_eq_ok_iff.1 cells).1
  have loaded : Program.load {} "ubO" = .ok (programOf "ubO".toList) :=
    load_eq_ok_iff.2 ⟨by decide, fit, rfl⟩
  have first : (programOf "ubO".toList).image[0]? = some 117 := @getElem?_programOf _ fit 0 'u' rfl
  -- From here on the memory is never computed, since its first cell is all that the cycle looks at.
  generalize programOf "ubO".toList = program at loaded first
  intro program machine
  have decoded : machine.decode (machine.initial "𝄞") = some .input := by
    change some (Op.decode ((program.image[0]?).getD 0) 0) = _
    rw [first]
    rfl
  have stepped := step_eq_of_decode rfl decoded (by decide)
  have reached : machine.Reaches (machine.initial "𝄞") 1 _ := .cycle .start rfl stepped
  obtain ⟨_, _, code, data, jump, accumulator, _⟩ :=
    registers_between_cycles {} "ubO" program loaded "𝄞" 1 _ reached
  obtain ⟨_, _, _, _, _, _, _, _, frame⟩ :=
    registers_between_cycles {} "ubO" program loaded "𝄞" 0 _ .start
  obtain ⟨others, encrypted⟩ := frame rfl (by rw [stepped]; rfl)
  rw [stepped] at others encrypted
  exact ⟨loaded, _, reached, rfl, accumulator, code, data, jump,
    fun address other => others address other other, encrypted⟩

end Esoterica.Malbolge
