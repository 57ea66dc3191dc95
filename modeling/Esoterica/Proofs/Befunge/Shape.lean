import Esoterica.Befunge.Field
import Esoterica.Proofs.Text
import Esoterica.Proofs.Word

/-!
The shape of the playfield: how long its rows are, which positions have a cell, and what a write and a
step can do to them.
-/

namespace Esoterica.Befunge.Field

/-- The length of a row, zero where there is none. -/
def width (field : Field) (y : Nat) : Nat :=
  ((field.rows[y]?).map Array.size).getD 0

/-- The pointer stands in the box around all rows. -/
structure InBox (field : Field) (pointer : Pointer) : Prop where
  left : 0 ≤ pointer.x.toInt
  right : pointer.x.toInt < max 1 field.widest
  top : 0 ≤ pointer.y.toInt
  bottom : pointer.y.toInt < field.height

/-- The playfield after some writes: the same rows, none of them shorter, and those that grew within
the limit. -/
structure Widened (field later : Field) : Prop where
  height : later.height = field.height
  keeps : ∀ y, field.width y ≤ later.width y
  limited : ∀ y, later.width y ≤ max (field.width y) widthLimit

variable {field later : Field} {pointer next : Pointer} {x y value : Word}

theorem width_of_row {row : Array Word} {index : Nat} (there : field.rows[index]? = some row) :
    field.width index = row.size := by
  simp [width, there]

theorem lt_height_of_width_pos {index : Nat} (positive : 0 < field.width index) :
    index < field.height := by
  refine Nat.lt_of_not_le fun outside => ?_
  have missing : field.rows[index]? = none := Array.getElem?_eq_none outside
  simp [width, missing] at positive

/-- Exactly the positions within a row have a cell. -/
theorem cell?_isSome_iff :
    (field.cell? x y).isSome ↔
      0 ≤ x.toInt ∧ 0 ≤ y.toInt ∧ x.toInt < field.width y.toInt.toNat := by
  unfold cell? width
  simp only [Word.zero_le_iff]
  by_cases signs : 0 ≤ x.toInt ∧ 0 ≤ y.toInt
  · rw [if_pos signs]
    cases field.rows[y.toInt.toNat]? with
    | none =>
        simp only [Option.bind_none, Option.isSome_none, Option.map_none, Option.getD_none,
          Bool.false_eq_true, false_iff]
        omega
    | some row =>
        simp only [Option.bind_some, Option.map_some, Option.getD_some, isSome_getElem?]
        omega
  · rw [if_neg signs]
    simp only [Option.isSome_none, Bool.false_eq_true, false_iff]
    omega

theorem foldl_max_le_iff (rows : List (Array Word)) (first bound : Nat) :
    rows.foldl (fun width row => max width row.size) first ≤ bound ↔
      first ≤ bound ∧ ∀ row ∈ rows, row.size ≤ bound := by
  induction rows generalizing first with
  | nil => simp
  | cons row rows inductionHypothesis =>
      rw [List.foldl_cons, inductionHypothesis]
      simp only [Nat.max_le, List.forall_mem_cons, and_assoc]

/-- The widest row is the least bound of all rows. -/
theorem widest_le_iff {bound : Nat} : field.widest ≤ bound ↔ ∀ y, field.width y ≤ bound := by
  rw [widest, ← Array.foldl_toList, foldl_max_le_iff]
  constructor
  · rintro ⟨-, bounded⟩ index
    cases there : field.rows[index]? with
    | none => simp [width, there]
    | some row =>
        rw [width_of_row there]
        exact bounded row (Array.mem_toList_iff.2 (Array.mem_of_getElem? there))
  · intro bounded
    refine ⟨Nat.zero_le _, fun row member => ?_⟩
    obtain ⟨index, there⟩ := Array.mem_iff_getElem?.1 (Array.mem_toList_iff.1 member)
    exact width_of_row there ▸ bounded index

theorem width_le_widest (field : Field) (index : Nat) : field.width index ≤ field.widest :=
  widest_le_iff.1 (Nat.le_refl _) index

theorem height_ofSource (source : String) :
    (ofSource source).height = (Text.lines source.toList).length := by
  simp [ofSource, height]

theorem width_ofSource (source : String) (index : Nat) :
    (ofSource source).width index = ((Text.lines source.toList)[index]?.map List.length).getD 0 := by
  cases there : (Text.lines source.toList)[index]? <;> simp [ofSource, width, there]

/-- No field is larger than the text that it comes from. -/
theorem ofSource_le (source : String) :
    (ofSource source).height ≤ source.length ∧ (ofSource source).widest ≤ source.length := by
  obtain ⟨fewLines, shortLines⟩ := Text.length_lines_le source.toList
  rw [String.length_toList] at fewLines shortLines
  refine ⟨height_ofSource source ▸ fewLines, widest_le_iff.2 fun index => ?_⟩
  rw [width_ofSource]
  cases there : (Text.lines source.toList)[index]? with
  | none => exact Nat.zero_le _
  | some line => exact shortLines line (List.mem_of_getElem? there)

theorem inBox_of_cell? (there : (field.cell? pointer.x pointer.y).isSome) : field.InBox pointer := by
  obtain ⟨left, top, inRow⟩ := cell?_isSome_iff.1 there
  have inWidest := field.width_le_widest pointer.y.toInt.toNat
  have inHeight : pointer.y.toInt.toNat < field.height := lt_height_of_width_pos (by omega)
  exact ⟨left, by omega, top, by omega⟩

theorem InBox.height_pos (inBox : field.InBox pointer) : 0 < field.height := by
  have top := inBox.top
  have bottom := inBox.bottom
  omega

theorem inBox_corner (rows : 0 < field.height) : field.InBox {} := by
  refine ⟨Int.le_refl 0, ?_, Int.le_refl 0, ?_⟩
  · change (0 : Int) < (max 1 field.widest : Nat)
    omega
  · change (0 : Int) < field.height
    omega

namespace Widened

theorem refl (field : Field) : field.Widened field :=
  ⟨rfl, fun _ => Nat.le_refl _, fun _ => Nat.le_max_left _ _⟩

theorem trans {last : Field} (first : field.Widened later) (second : later.Widened last) :
    field.Widened last where
  height := second.height.trans first.height
  keeps index := Nat.le_trans (first.keeps index) (second.keeps index)
  limited index := by
    have firstLimit := first.limited index
    have secondLimit := second.limited index
    omega

theorem widest_le (widened : field.Widened later) : field.widest ≤ later.widest :=
  widest_le_iff.2 fun index => Nat.le_trans (widened.keeps index) (later.width_le_widest index)

theorem widest_le_limit (widened : field.Widened later) :
    later.widest ≤ max field.widest widthLimit := by
  refine widest_le_iff.2 fun index => ?_
  have limited := widened.limited index
  have inWidest := field.width_le_widest index
  omega

theorem narrow (widened : field.Widened later) (narrow : field.widest ≤ Word.greatest) :
    later.widest ≤ Word.greatest := by
  have limit : (widthLimit : Int) ≤ Word.greatest := by decide
  have grown := widened.widest_le_limit
  omega

theorem cell?_isSome (widened : field.Widened later) (there : (field.cell? x y).isSome) :
    (later.cell? x y).isSome := by
  obtain ⟨left, top, inRow⟩ := cell?_isSome_iff.1 there
  have kept := widened.keeps y.toInt.toNat
  exact cell?_isSome_iff.2 ⟨left, top, by omega⟩

theorem inBox (widened : field.Widened later) (inBox : field.InBox pointer) : later.InBox pointer where
  left := inBox.left
  right := by
    have right := inBox.right
    have wider := widened.widest_le
    omega
  top := inBox.top
  bottom := widened.height ▸ inBox.bottom

end Widened

theorem size_writeRow (row : Array Word) (index : Nat) (value : Word) :
    (writeRow row index value).size = max row.size (index + 1) := by
  unfold writeRow
  split
  · rw [Array.size_setIfInBounds]
    omega
  · simp only [Array.size_push, Array.size_append, Array.size_replicate]
    omega

/-- A write makes at most one row longer. -/
theorem widened_of_put? (written : field.put? x y value = some later) : field.Widened later := by
  unfold put? at written
  split at written
  · rename_i allowed
    cases written
    simp only [Bool.and_eq_true, decide_eq_true_eq] at allowed
    have width_modify (index : Nat) :
        width ⟨field.rows.modify y.toInt.toNat fun row => writeRow row x.toInt.toNat value⟩ index =
          field.width index ∨
        width ⟨field.rows.modify y.toInt.toNat fun row => writeRow row x.toInt.toNat value⟩ index =
          max (field.width index) (x.toInt.toNat + 1) := by
      simp only [width, Array.getElem?_modify]
      split
      · cases field.rows[index]? with
        | none => exact .inl rfl
        | some row => exact .inr (size_writeRow row _ value)
      · exact .inl rfl
    refine ⟨Array.size_modify, fun index => ?_, fun index => ?_⟩
    · have modified := width_modify index
      omega
    · have modified := width_modify index
      have limit := allowed.2
      omega
  · cases written

/-- Without a way around, a step has to end on a cell. -/
theorem step?_straight_iff :
    field.step? false pointer = some next ↔
      pointer.advance? = some next ∧ (field.cell? next.x next.y).isSome := by
  have direct : field.step? false pointer =
      pointer.advance?.filter fun next => (field.cell? next.x next.y).isSome := by
    unfold step?
    cases pointer.advance?.filter fun next => (field.cell? next.x next.y).isSome <;> rfl
  rw [direct, Option.filter_eq_some_iff]

theorem look?_straight (field : Field) (pointer : Pointer) :
    field.look? false pointer = field.cell? pointer.x pointer.y := by
  unfold look?
  cases field.cell? pointer.x pointer.y <;> simp

/-- A field that wraps and has a row has no way off it. -/
theorem step?_isSome (rows : 0 < field.height) (pointer : Pointer) :
    (field.step? true pointer).isSome := by
  unfold step?
  split
  · rfl
  · simp [rows]

/-- A remainder by a size that is a word is one as well. -/
theorem toInt_ofInt_emod (value : Int) {size : Nat} (positive : 0 < size) (fits : size ≤ Word.greatest) :
    (Int64.ofInt (value % size)).toInt = value % size := by
  have nonneg := Int.emod_nonneg value (show (size : Int) ≠ 0 by omega)
  have below := Int.emod_lt_of_pos value (show (0 : Int) < size by omega)
  have least : Word.least ≤ 0 := by decide
  exact Word.toInt_ofInt (by omega) (by omega)

theorem toInt_around (position delta : Word) {size : Nat} (positive : 0 < size)
    (fits : size ≤ Word.greatest) :
    0 ≤ (around position delta size).toInt ∧ (around position delta size).toInt < size := by
  rw [around, toInt_ofInt_emod _ positive fits]
  exact ⟨Int.emod_nonneg _ (by omega), Int.emod_lt_of_pos _ (by omega)⟩

/-- On a field whose rows and columns are counted by words, a step leads to a place in the box, whatever
the step is. -/
theorem inBox_of_step? (rows : 0 < field.height) (fewRows : field.height ≤ Word.greatest)
    (narrow : field.widest ≤ Word.greatest) (stepped : field.step? true pointer = some next) :
    field.InBox next := by
  unfold step? at stepped
  split at stepped
  · rename_i kept
    cases stepped
    exact inBox_of_cell? (Option.filter_eq_some_iff.1 kept).2
  · simp only [Bool.true_and, decide_eq_true_eq, rows, if_true, Option.some.injEq] at stepped
    subst stepped
    have one : (1 : Int) ≤ Word.greatest := by decide
    have columns : 0 < max field.widest 1 := by omega
    obtain ⟨left, right⟩ := toInt_around pointer.x pointer.dx columns (by omega)
    obtain ⟨top, bottom⟩ := toInt_around pointer.y pointer.dy rows fewRows
    exact ⟨left, by simp only [wrapAround]; omega, top, bottom⟩

/-- In the box around the rows of a field that wraps there is always something to read. -/
theorem look?_isSome (inBox : field.InBox pointer) : (field.look? true pointer).isSome := by
  unfold look?
  split
  · rfl
  · have top := inBox.top
    have bottom := inBox.bottom
    have hasRow : field.hasRow pointer.y := by
      simp only [hasRow, Bool.and_eq_true, decide_eq_true_eq, Word.zero_le_iff]
      omega
    simp [hasRow]

end Esoterica.Befunge.Field
