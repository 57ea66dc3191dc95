import Esoterica.Befunge.Machine
import Esoterica.Proofs.Befunge.Shape

/-!
The playfield as the memory of a program. A value that has been written is read back, and every other
place reads as before: the blanks that fill up a short row are those that were read behind its end.
-/

namespace Esoterica.Befunge

namespace Field

variable {field later : Field} {x y value : Word} {row : Array Word}

theorem hasRow_iff : field.hasRow y ↔ 0 ≤ y.toInt ∧ y.toInt < field.height := by
  simp only [hasRow, Bool.and_eq_true, decide_eq_true_eq, Word.zero_le_iff]
  omega

theorem toNat_inj {first second : Word} (nonneg : 0 ≤ first.toInt) (nonnegToo : 0 ≤ second.toInt) :
    first.toInt.toNat = second.toInt.toNat ↔ first = second := by
  rw [← Int64.toInt_inj]
  omega

/-- The place is in a row and within the limit of writing. -/
def Writable (field : Field) (x y : Word) : Prop :=
  (0 ≤ y.toInt ∧ y.toInt < field.height) ∧ 0 ≤ x.toInt ∧ x.toInt < widthLimit

/-- The field after a write in a row that is there. -/
def written (field : Field) (x y value : Word) : Field :=
  ⟨field.rows.modify y.toInt.toNat fun row => writeRow row x.toInt.toNat value⟩

theorem put?_of_writable (writable : field.Writable x y) :
    field.put? x y value = some (field.written x y value) := by
  obtain ⟨inRows, left, within⟩ := writable
  have column : x.toInt.toNat < widthLimit := by omega
  simp only [put?, hasRow_iff.2 inRows, Word.zero_le_iff, left, column, decide_true, Bool.and_self,
    if_true]
  rfl

theorem put?_of_not_writable (refused : ¬ field.Writable x y) : field.put? x y value = none := by
  apply if_neg
  intro allowed
  simp only [Bool.and_eq_true, decide_eq_true_eq, Word.zero_le_iff] at allowed
  obtain ⟨⟨inRows, left⟩, within⟩ := allowed
  exact refused ⟨hasRow_iff.1 inRows, left, by omega⟩

/-- What is read in a column of a row, which goes on with blanks behind its end. -/
def readRow (row : Array Word) (column : Nat) : Word :=
  (row[column]?).getD space

/-- What is read at a place is read in its row. -/
theorem get_of_row (left : 0 ≤ x.toInt) (top : 0 ≤ y.toInt)
    (there : field.rows[y.toInt.toNat]? = some row) : field.get x y = readRow row x.toInt.toNat := by
  have inRows : field.hasRow y := by
    have bound : y.toInt.toNat < field.height := (Array.getElem?_eq_some_iff.1 there).1
    exact hasRow_iff.2 ⟨top, by omega⟩
  simp only [get, cell?, inRows, Word.zero_le_iff, left, top, there, decide_true, Bool.and_self, and_self,
    if_true, Option.bind_some]
  rfl

theorem get_of_outside (outside : ¬ (0 ≤ x.toInt ∧ 0 ≤ y.toInt ∧ y.toInt < field.height)) :
    field.get x y = 0 := by
  apply if_neg
  intro inside
  simp only [Bool.and_eq_true, decide_eq_true_eq, hasRow_iff, Word.zero_le_iff] at inside
  exact outside ⟨inside.2, inside.1⟩

/-- The cells of a row after a write. Up to the written one they hold what was read there before. -/
theorem getElem?_writeRow (row : Array Word) (index : Nat) (value : Word) (column : Nat) :
    (writeRow row index value)[column]? =
      if column = index then some value
      else if column < index then some (readRow row column)
      else row[column]? := by
  have held (inRow : column < row.size) : some (readRow row column) = row[column]? := by
    simp [readRow, inRow]
  unfold writeRow
  by_cases inside : index < row.size
  · rw [if_pos inside, Array.getElem?_setIfInBounds]
    grind
  · rw [if_neg inside, Array.getElem?_push, Array.getElem?_append, Array.getElem?_replicate,
      Array.size_append, Array.size_replicate, Nat.add_sub_cancel' (Nat.le_of_not_lt inside)]
    by_cases inRow : column < row.size
    · rw [if_pos inRow, held inRow, ite_self]
    · have blank : readRow row column = space := by simp [readRow, inRow]
      rw [blank]
      grind

/-- A row reads as before in every other column. -/
theorem readRow_writeRow (row : Array Word) (index : Nat) (value : Word) (column : Nat) :
    readRow (writeRow row index value) column =
      if column = index then value else readRow row column := by
  rw [readRow, getElem?_writeRow]
  split
  · rfl
  · split
    · rfl
    · rfl

theorem height_written (field : Field) (x y value : Word) :
    (field.written x y value).height = field.height :=
  Array.size_modify

/-- Only the row of the written place changes. -/
theorem row_written (field : Field) (x y value : Word) (index : Nat) :
    (field.written x y value).rows[index]? =
      if y.toInt.toNat = index then (field.rows[index]?).map (writeRow · x.toInt.toNat value)
      else field.rows[index]? := by
  rw [written, Array.getElem?_modify]

/-- A write is seen at its place and nowhere else. -/
theorem get_written (writable : field.Writable x y) (column line : Word) :
    (field.written x y value).get column line =
      if (column, line) = (x, y) then value else field.get column line := by
  obtain ⟨⟨top, bottom⟩, left, _⟩ := writable
  by_cases inside : 0 ≤ column.toInt ∧ 0 ≤ line.toInt ∧ line.toInt < field.height
  · obtain ⟨columnLeft, lineTop, lineBottom⟩ := inside
    have bound : line.toInt.toNat < field.rows.size := by
      change line.toInt.toNat < field.height
      omega
    have there := Array.getElem?_eq_getElem bound
    have rowThen := field.row_written x y value line.toInt.toNat
    by_cases sameLine : line = y
    · subst sameLine
      rw [if_pos rfl, there, Option.map_some] at rowThen
      rw [get_of_row columnLeft lineTop rowThen, get_of_row columnLeft lineTop there, readRow_writeRow]
      simp only [toNat_inj columnLeft left, Prod.mk.injEq, and_true]
    · have otherRow : y.toInt.toNat ≠ line.toInt.toNat := by
        intro same
        exact sameLine ((toNat_inj top lineTop).1 same).symm
      rw [if_neg otherRow, there] at rowThen
      rw [get_of_row columnLeft lineTop rowThen, get_of_row columnLeft lineTop there, if_neg]
      intro same
      exact sameLine (congrArg Prod.snd same)
  · have outsideToo : ¬ (0 ≤ column.toInt ∧ 0 ≤ line.toInt ∧
        line.toInt < (field.written x y value).height) := by
      rwa [height_written]
    rw [get_of_outside inside, get_of_outside outsideToo, if_neg]
    intro same
    cases same
    exact inside ⟨left, top, bottom⟩

theorem get_of_cell? {cell : Word} (there : field.cell? x y = some cell) : field.get x y = cell := by
  obtain ⟨left, top, inRow⟩ := cell?_isSome_iff.1 (Option.isSome_iff_exists.2 ⟨cell, there⟩)
  have bottom : y.toInt.toNat < field.height := lt_height_of_width_pos (by omega)
  have inRows : field.hasRow y := hasRow_iff.2 ⟨top, by omega⟩
  simp only [get, inRows, Word.zero_le_iff, left, decide_true, Bool.and_self, if_true, there,
    Option.getD_some]

/-- Behind the end of a row there are blanks. -/
theorem get_of_gap (inRows : 0 ≤ y.toInt ∧ y.toInt < field.height) (left : 0 ≤ x.toInt)
    (missing : field.cell? x y = none) : field.get x y = space := by
  simp only [get, hasRow_iff.2 inRows, Word.zero_le_iff, left, decide_true, Bool.and_self, if_true,
    missing, Option.getD_none]

end Field

/-- The state after a write. -/
def storing (state : State Registers) (x y value : Word) : State Registers :=
  state.update fun registers => { registers with field := registers.field.written x y value }

theorem put_of_writable {state : State Registers} {x y : Word}
    (writable : state.registers.field.Writable x y) (value : Word) :
    put state x y value = ⟨storing state x y value, none⟩ := by
  simp only [put, Field.put?_of_writable writable]
  rfl

theorem put_of_not_writable {state : State Registers} {x y : Word}
    (refused : ¬ state.registers.field.Writable x y) (value : Word) :
    ∃ fault, put state x y value = ⟨state, some fault⟩ := by
  simp only [put, Field.put?_of_not_writable refused]
  exact ⟨_, rfl⟩

/-- Writing and reading make a memory of the playfield. A value can be written exactly in the rows that are
there and in the first `65536` columns; a write that is refused leaves everything as it is. The value is
read back at its place, and all other places, in the rows or not, read as before. No other row changes,
and where the row has been filled up, it reads as the gap did. -/
theorem writes_are_read_back (state : State Registers) (x y value : Word) :
    let field := state.registers.field
    let outcome := put state x y value
    let later := outcome.state.registers.field
    (outcome.fault = none ↔
      (0 ≤ y.toInt ∧ y.toInt < field.height) ∧ 0 ≤ x.toInt ∧ x.toInt < 65536) ∧
    (outcome.fault ≠ none → outcome.state = state) ∧
    (outcome.fault = none →
      outcome.state = state.update (fun registers => { registers with field := later }) ∧
      later.get x y = value ∧
      (∀ column line : Word, (column, line) ≠ (x, y) → later.get column line = field.get column line) ∧
      later.height = field.height ∧
      (∀ index : Nat, (index : Int) ≠ y.toInt → later.rows[index]? = field.rows[index]?) ∧
      ∀ column cell : Word, column ≠ x → field.cell? column y = none →
        later.cell? column y = some cell → cell = Field.space ∧ field.get column y = Field.space) := by
  intro field outcome later
  by_cases writable : field.Writable x y
  · have put : outcome = ⟨storing state x y value, none⟩ := put_of_writable writable value
    have same : later = field.written x y value := congrArg (·.state.registers.field) put
    have reads (column line : Word) : later.get column line =
        if (column, line) = (x, y) then value else field.get column line := by
      rw [same]
      exact Field.get_written writable column line
    have apart (column line : Word) (other : (column, line) ≠ (x, y)) :
        later.get column line = field.get column line := by
      rw [reads, if_neg other]
    refine ⟨iff_of_true (by rw [put]) writable, ?_, fun _ => ⟨?_, ?_, apart, ?_, ?_, ?_⟩⟩
    · intro failed
      exact absurd (by rw [put]) failed
    · rw [put, same]
      rfl
    · rw [reads, if_pos rfl]
    · rw [same, Field.height_written]
    · intro index other
      rw [same, Field.row_written, if_neg]
      have top := writable.1.1
      omega
    · intro column cell other missing filled
      have left : 0 ≤ column.toInt :=
        (Field.cell?_isSome_iff.1 (Option.isSome_iff_exists.2 ⟨cell, filled⟩)).1
      have gap : field.get column y = Field.space := Field.get_of_gap writable.1 left missing
      have unseen := apart column y fun equal => other (congrArg Prod.fst equal)
      rw [Field.get_of_cell? filled, gap] at unseen
      exact ⟨unseen, gap⟩
  · obtain ⟨fault, put⟩ : ∃ fault, outcome = ⟨state, some fault⟩ := put_of_not_writable writable value
    refine ⟨iff_of_false (by simp [put]) writable, fun _ => by rw [put], ?_⟩
    intro succeeded
    simp [put] at succeeded

/-- A write behind the end of a row, with blanks in between, and one that is too far to the right. -/
theorem writes_are_read_back_over_gap :
    let state := (machine {} (.ofSource "ab\n@")).initial ""
    let outcome := put state 7 0 36
    let later := outcome.state.registers.field
    outcome.fault = none ∧ later.get 7 0 = 36 ∧ later.get 3 0 = 32 ∧ later.get 0 1 = 64 ∧
      later.cell? 3 0 = some 32 ∧ (put state 65536 0 36).fault ≠ none ∧
      (put state 65536 0 36).state = state := by
  intro state outcome later
  obtain ⟨succeeds, _, memory⟩ := writes_are_read_back state 7 0 36
  obtain ⟨refuses, kept, _⟩ := writes_are_read_back state 65536 0 36
  have done : outcome.fault = none := succeeds.2 (by decide)
  have failed : (put state 65536 0 36).fault ≠ none := fun none => absurd (refuses.1 none) (by decide)
  obtain ⟨_, written, apart, _⟩ := memory done
  exact ⟨done, written, (apart 3 0 (by decide)).trans (by decide), (apart 0 1 (by decide)).trans (by decide),
    by decide, failed, kept failed⟩

end Esoterica.Befunge
