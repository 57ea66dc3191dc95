import Esoterica.Proofs.Befunge.Dialects
import Esoterica.Proofs.Befunge.Strides
import Esoterica.Proofs.Program.Limits
import Esoterica.Proofs.Source.Rows

/-!
String mode. Between two quotes every cell is a value and no cell an instruction, so that a program which
holds nothing but a text in quotes leaves its characters on the stack, one cycle for each of them, unless
a clock stops it on the way.
-/

namespace Esoterica.Befunge

namespace Field

/-- A field of one row. -/
def ofRow (cells : List Word) : Field :=
  ⟨#[cells.toArray]⟩

/-- The pointer in a column of the first row, on its way to the right. -/
def inColumn (column : Nat) : Pointer :=
  { x := Int64.ofNat column }

variable {cells : List Word} {column : Nat}

theorem toInt_column (fits : (column : Int) ≤ Word.greatest) : (Int64.ofNat column).toInt = column := by
  unfold Word.greatest at fits
  exact Int64.toInt_ofNat_of_lt (by omega)

theorem cell?_ofRow (fits : (column : Int) ≤ Word.greatest) :
    (ofRow cells).cell? (inColumn column).x (inColumn column).y = cells[column]? := by
  have value : (inColumn column).x.toInt = column := toInt_column fits
  have left : 0 ≤ (inColumn column).x := Word.zero_le_iff.2 (by omega)
  have top : (0 : Word) ≤ (inColumn column).y := Word.zero_le_iff.2 (Int.le_refl 0)
  rw [cell?, if_pos ⟨left, top⟩, value, Int.toNat_natCast]
  exact List.getElem?_toArray

theorem advance?_inColumn (fits : ((column + 1 : Nat) : Int) ≤ Word.greatest) :
    (inColumn column).advance? = some (inColumn (column + 1)) := by
  apply Pointer.advance?_eq_some_iff.2
  refine ⟨?_, rfl, rfl, rfl⟩
  change (Int64.ofNat (column + 1)).toInt = (Int64.ofNat column).toInt + 1
  rw [toInt_column fits, toInt_column (by omega), Int.natCast_succ]

/-- Within the row the pointer goes on, whether the field wraps or not. -/
theorem step?_ofRow (wrap : Bool) (fits : ((column + 1 : Nat) : Int) ≤ Word.greatest)
    (further : column + 1 < cells.length) :
    (ofRow cells).step? wrap (inColumn column) = some (inColumn (column + 1)) := by
  have there : ((ofRow cells).cell? (inColumn (column + 1)).x (inColumn (column + 1)).y).isSome := by
    rw [cell?_ofRow fits, isSome_getElem?]
    exact further
  rw [step?, advance?_inColumn fits, Option.filter_some, if_pos there]

theorem look?_ofRow (wrap : Bool) (fits : (column : Int) ≤ Word.greatest) {cell : Word}
    (here : cells[column]? = some cell) : (ofRow cells).look? wrap (inColumn column) = some cell := by
  rw [look?, cell?_ofRow fits, here]

end Field

/-- A state with its pointer in another column, in or out of string mode, and with these values on the
stack. -/
def scanned (start : State Registers) (column : Nat) (mode : Bool) (pushed : List Word) :
    State Registers :=
  { start with
    registers := { start.registers with pointer := Field.inColumn column, stringMode := mode }
    stack := .ofList pushed }

/-- A cycle whose instruction neither fails nor ends the program goes on with a move. -/
theorem next?_of_execute {options : Options} {state after next : State Registers} {op : Op}
    (field : Field) (dice : Dice) (decoded : decode options state = some op)
    (executed : execute options op state = ⟨after, none⟩) (running : after.ending = none)
    (moved : move options.wrap after = next) (goesOn : next.ending = none) :
    (machine options field dice).next? state = some next := by
  have decoded : (machine options field dice).decode state = some op := decoded
  have executed : (machine options field dice).execute op state = ⟨after, none⟩ := executed
  have advanced : (machine options field dice).advance op after = next := moved
  apply Machine.next?_eq_some_iff.2
  rw [Machine.step_eq_andThen decoded, executed, Outcome.andThen]
  simp [State.done, running, advanced, goesOn]

section Scan

variable {options : Options} {field : Field} {dice : Dice} {cells : List Word}
  {start : State Registers} (fits : (cells.length : Int) ≤ Word.greatest)
  (row : start.registers.field = .ofRow cells)

include fits row

theorem look?_scanned {column : Nat} {cell : Word} (here : cells[column]? = some cell) (mode : Bool)
    (pushed : List Word) :
    (scanned start column mode pushed).registers.field.look? options.wrap
      (scanned start column mode pushed).registers.pointer = some cell := by
  have inside := (List.getElem?_eq_some_iff.1 here).1
  change start.registers.field.look? options.wrap (Field.inColumn column) = some cell
  rw [row]
  exact Field.look?_ofRow _ (by omega) here

theorem move_scanned {column : Nat} (further : column + 1 < cells.length) (mode : Bool)
    (pushed : List Word) :
    move options.wrap (scanned start column mode pushed) = scanned start (column + 1) mode pushed := by
  apply move_of_step?
  change start.registers.field.step? options.wrap (Field.inColumn column) = _
  rw [row]
  exact Field.step?_ofRow _ (by omega) further

/-- Out of string mode, the instruction for it ends the program. -/
theorem step_end (field : Field) {column : Nat} (here : cells[column]? = some (Word.ofChar '@'))
    (pushed : List Word) :
    (machine options field dice).step (scanned start column false pushed) =
      ⟨(scanned start column false pushed).halt .stopped, none⟩ := by
  have decoded : (machine options field dice).decode (scanned start column false pushed) = some .halt := by
    have meaning : Op.decode options.dialect (Word.ofChar '@') = .halt :=
      Op.decode_of_primary? (show Op.primary? '@' = some .halt from rfl) _
    change decode options _ = _
    rw [decode, look?_scanned fits row here, Option.map_some]
    simp [scanned, meaning]
  rw [Machine.step_eq_andThen decoded]
  rfl

variable (running : start.ending = none)

include running

/-- A quote starts string mode, and the next one ends it. -/
theorem next?_quote (field : Field) {column : Nat} (here : cells[column]? = some quote)
    (further : column + 1 < cells.length) (mode : Bool) (pushed : List Word) :
    (machine options field dice).next? (scanned start column mode pushed) =
      some (scanned start (column + 1) (!mode) pushed) := by
  have decoded : decode options (scanned start column mode pushed) = some .toggleString := by
    have meaning : Op.decode options.dialect quote = .toggleString :=
      Op.decode_of_primary? (show Op.primary? '"' = some .toggleString from rfl) _
    rw [decode, look?_scanned fits row here, Option.map_some]
    cases mode <;> simp [scanned, meaning]
  exact next?_of_execute field dice decoded rfl running (move_scanned fits row further _ _) running

/-- In string mode any other cell is put on the stack. -/
theorem next?_character (field : Field) {column : Nat} {cell : Word} (here : cells[column]? = some cell)
    (unquoted : cell ≠ quote) (further : column + 1 < cells.length) {pushed : List Word}
    (room : pushed.length < Stack.limit) :
    (machine options field dice).next? (scanned start column true pushed) =
      some (scanned start (column + 1) true (cell :: pushed)) := by
  have decoded : decode options (scanned start column true pushed) = some (.pushChar cell) := by
    rw [decode, look?_scanned fits row here, Option.map_some]
    simp [scanned, unquoted]
  have executed : execute options (.pushChar cell) (scanned start column true pushed) =
      ⟨scanned start column true (cell :: pushed), none⟩ := by
    simp only [execute, State.push, State.onStack, Stack.push, scanned, Stack.ofList, room, if_true,
      Outcome.within, List.length_cons]
  exact next?_of_execute field dice decoded executed running (move_scanned fits row further _ _) running

/-- The characters of a text are put on the stack one after the other. -/
theorem proceeds_text (field : Field) (room : start.output.length < options.maxOutput)
    {text : List Char} (unquoted : '"' ∉ text) {before after : List Word}
    (split : cells = before ++ text.map Word.ofChar ++ after) (more : after ≠ []) {pushed : List Word}
    (short : pushed.length + text.length ≤ Stack.limit) :
    (machine options field dice).Proceeds (scanned start before.length true pushed) text.length
      (scanned start (before.length + text.length) true ((text.map Word.ofChar).reverse ++ pushed)) := by
  -- The cells before the text grow with each character that has been read.
  induction text generalizing before pushed with
  | nil => exact .start _
  | cons c text inductionHypothesis =>
      rw [List.mem_cons, not_or] at unquoted
      have here : cells[before.length]? = some (Word.ofChar c) := by simp [split]
      have further : before.length + 1 < cells.length := by
        have positive := List.length_pos_iff.2 more
        simp only [split, List.length_append, List.length_map, List.length_cons]
        omega
      have other : Word.ofChar c ≠ quote := by
        intro same
        exact unquoted.1 (Word.ofChar_inj.1 (same.trans rfl)).symm
      rw [List.length_cons] at short
      have first : (machine options field dice).next? (scanned start before.length true pushed) =
          some (scanned start (before.length + 1) true (Word.ofChar c :: pushed)) :=
        next?_character fits row running field here other further (by omega)
      have grown : cells = before ++ [Word.ofChar c] ++ text.map Word.ofChar ++ after := by simp [split]
      have fewer : (Word.ofChar c :: pushed).length + text.length ≤ Stack.limit := by
        rw [List.length_cons]
        omega
      have rest := inductionHypothesis unquoted.2 grown fewer
      rw [List.length_append, List.length_singleton, Nat.add_assoc, Nat.add_comm 1] at rest
      rw [List.map_cons, List.reverse_cons, List.append_assoc, List.singleton_append, List.length_cons]
      exact .prepend first room rest

end Scan

theorem ofSource_quoted {text : String} (oneLine : '\n' ∉ text.toList) :
    Field.ofSource ("\"" ++ text ++ "\"@") =
      .ofRow ([quote] ++ text.toList.map Word.ofChar ++ [quote, Word.ofChar '@']) := by
  have chars : ("\"" ++ text ++ "\"@").toList = '"' :: (text.toList ++ ['"', '@']) := by simp
  have line : Text.lines ('"' :: (text.toList ++ ['"', '@'])) = ['"' :: (text.toList ++ ['"', '@'])] := by
    apply Text.lines_of_one_line
    · simp [oneLine]
    · simp
  rw [Field.ofSource, chars, line]
  simp [Field.ofRow]
  rfl

/-- The cycles of the program: the first quote, the text, the second quote, and the end. -/
theorem course_of_quoted {options : Options} (valid : options.Valid) (dice : Dice) {text : String}
    (unquoted : '"' ∉ text.toList) (oneLine : '\n' ∉ text.toList) (short : text.length ≤ Stack.limit)
    (input : String) :
    let machine := machine options (.ofSource ("\"" ++ text ++ "\"@")) dice
    let last := scanned (machine.initial input) (text.length + 2) false
      (text.toList.map Word.ofChar).reverse
    machine.Proceeds (machine.initial input) (text.length + 2) last ∧
      machine.step last = ⟨last.halt .stopped, none⟩ := by
  intro machine last
  let codes := text.toList.map Word.ofChar
  let cells := [quote] ++ codes ++ [quote, Word.ofChar '@']
  have size : codes.length = text.length := by rw [List.length_map, String.length_toList]
  have fits : (cells.length : Int) ≤ Word.greatest := by
    have limit : (Stack.limit + 3 : Int) ≤ Word.greatest := by decide
    simp only [cells, List.length_append, List.length_cons, List.length_nil, size]
    omega
  have row : (machine.initial input).registers.field = .ofRow cells := ofSource_quoted oneLine
  have room : (machine.initial input).output.length < options.maxOutput := valid.2.2.2
  have opening : machine.next? (machine.initial input) =
      some (scanned (machine.initial input) 1 true []) :=
    next?_quote fits row rfl _ rfl (by simp [cells]) false []
  have reading : machine.Proceeds (scanned (machine.initial input) 1 true []) text.toList.length
      (scanned (machine.initial input) (1 + text.toList.length) true (codes.reverse ++ [])) :=
    proceeds_text fits row rfl _ room unquoted rfl (by simp) (by simpa [String.length_toList] using short)
  rw [String.length_toList, Nat.add_comm, List.append_nil] at reading
  have closing : machine.next? (scanned (machine.initial input) (text.length + 1) true codes.reverse) =
      some last :=
    next?_quote fits row rfl _ (by simp [cells, size]) (by simp [cells, size]) true _
  exact ⟨(reading.prepend opening room).next closing room,
    step_end fits row _ (by simp [cells, size]) _⟩

/-- A text in quotes with the end of the program behind it leaves its characters on the stack, the first
one at the bottom. It takes one cycle for each of them and three for the rest, in both dialects, whether
the field wraps or not, and it writes nothing. Against a clock the run comes to the same end, or it has
written nothing either when its time is up in a cycle before the last. -/
theorem quoted_text_is_pushed (options : Options) (valid : options.Valid) (text : String)
    (unquoted : '"' ∉ text.toList) (oneLine : '\n' ∉ text.toList) (short : text.length ≤ 1048576)
    (enough : text.length + 3 ≤ options.maxCycles) (input : String) (dice : Dice) :
    ∃ field, load options ("\"" ++ text ++ "\"@") = .ok field ∧
      let run := (Program.befunge field).run options input dice
      let machine := machine options field dice
      let whole := machine.finish input
      run.fault = none ∧ run.cycles = text.length + 3 ∧ run.output = "" ∧
      whole.state.ending = some .stopped ∧
      whole.state.stack.values.reverse.map Int64.toInt = text.toList.map (fun c => (c.toNat : Int)) ∧
      ∀ (Host : Type) (timeUp : StateM Host Bool) (host : Host),
        let finish := ((machine.runWith timeUp input).run host).run.1
        finish = whole ∨ machine.TimedOut timeUp input (text.length + 2) finish ∧
          finish.state.output.text = "" := by
  refine ⟨.ofSource ("\"" ++ text ++ "\"@"), load_eq_ok_iff.2 ⟨valid, rfl⟩, ?_⟩
  intro run machine whole
  obtain ⟨proceeds, stepped⟩ := course_of_quoted valid dice unquoted oneLine short input
  have finished : whole = _ := proceeds.finish_eq enough stepped rfl
  refine ⟨congrArg Finish.fault finished, congrArg Finish.cycles finished, ?_, ?_, ?_, ?_⟩
  · change whole.state.output.text = ""
    rw [finished]
    rfl
  · rw [finished]
    rfl
  · rw [finished]
    change List.map Int64.toInt (text.toList.map Word.ofChar).reverse.reverse = _
    rw [List.reverse_reverse, List.map_map]
    exact List.map_congr_left fun c _ => Word.toInt_ofChar c
  · intro Host timeUp host finish
    rcases proceeds.runWith timeUp stepped rfl enough host with ended | late
    · exact .inl (ended.trans finished.symm)
    · refine .inr ⟨late, ?_⟩
      -- What was written before the last cycle would still be there in it.
      obtain ⟨more, total⟩ := Nat.exists_eq_add_of_le late.early
      have later := proceeds.reaches
      rw [total, Machine.after?_add, late.reached, Option.bind_some] at later
      have writes : machine.Writes (some " ") := Program.withMachine_writes options (.befunge _) dice
      exact String.toList_eq_nil_iff.1 (List.prefix_nil.1 (writes.isPrefix_after? later))

/-- Instructions as a text, among them an end of the program and one that there is not, with no more cycles
than it takes. -/
theorem quoted_instructions_are_pushed :
    let options : Options := { wrap := true, dialect := .befunge98, maxCycles := 8 }
    let text := "@p;jh"
    options.Valid ∧ '"' ∉ text.toList ∧ '\n' ∉ text.toList ∧ text.length ≤ 1048576 ∧
      text.length + 3 ≤ options.maxCycles ∧
      ∃ field, load options ("\"" ++ text ++ "\"@") = .ok field ∧
        ((Program.befunge field).run options "").fault = none ∧
        ((Program.befunge field).run options "").cycles = 8 ∧
        ((machine options field).finish "").state.stack.values.reverse.map Int64.toInt =
          [64, 112, 59, 106, 104] := by
  intro options text
  have valid : options.Valid := by decide
  have unquoted : '"' ∉ text.toList := by decide
  have oneLine : '\n' ∉ text.toList := by decide
  have short : text.length ≤ 1048576 := by decide
  have enough : text.length + 3 ≤ options.maxCycles := by decide
  obtain ⟨field, loaded, fault, cycles, _, _, stack, _⟩ :=
    quoted_text_is_pushed options valid text unquoted oneLine short enough "" (.ofSeed none)
  exact ⟨valid, unquoted, oneLine, short, enough, field, loaded, fault,
    cycles.trans (by decide), stack.trans (by decide)⟩

/-- Not every run against a clock puts the text on the stack. -/
theorem not_every_quoted_text_is_pushed :
    ¬ ∀ (options : Options) (text : String) (field : Field), options.Valid → '"' ∉ text.toList →
      '\n' ∉ text.toList → text.length ≤ 1048576 → text.length + 3 ≤ options.maxCycles →
      load options ("\"" ++ text ++ "\"@") = .ok field →
        ∀ (Host : Type) (timeUp : StateM Host Bool) (host : Host) (input : String),
          (((machine options field).runWith timeUp input).run host).run.1.fault = none := by
  intro always
  let late : StateM Unit Bool := pure true
  have pushed := always {} "a" (.ofSource "\"a\"@") (by decide) (by decide) (by decide) (by decide)
    (by decide) rfl Unit late () ""
  have stopped : (((machine {} (.ofSource "\"a\"@")).runWith late "").run ()).run.1.fault.map Error.kind =
      some .exceededTime := by decide +kernel
  rw [pushed] at stopped
  cases stopped

end Esoterica.Befunge
