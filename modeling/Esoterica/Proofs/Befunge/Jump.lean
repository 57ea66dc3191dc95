import Esoterica.Proofs.Befunge.Strides

/-!
Jumps on a field that wraps. The limit of a jump is the number of places in the box, and as many steps
lead around the torus to where they began. So a jump that meets its limit goes nowhere, however far its
number would have it go.
-/

namespace Esoterica.Befunge

namespace Field

variable {pointer : Pointer}

/-- Steps of a pointer that has been turned around lead the other way. -/
theorem reflect_translated (field : Field) (dx : pointer.dx.toInt ≠ Word.least)
    (dy : pointer.dy.toInt ≠ Word.least) (steps : Int) :
    (field.translated pointer.reflect steps).reflect = field.translated pointer (-steps) := by
  simp only [translated, Pointer.reflect, Word.toInt_neg dx, Word.toInt_neg dy, Int64.neg_neg,
    Int.mul_neg, Int.neg_mul]

/-- A coordinate in the box comes back to its place exactly after a whole number of rounds. -/
theorem emod_eq_self_iff {position distance : Int} {size : Nat} (lower : 0 ≤ position)
    (upper : position < size) : (position + distance) % size = position ↔ (size : Int) ∣ distance := by
  have own : position % size = position := Int.emod_eq_of_lt lower upper
  have moved : position + distance - position = distance := by omega
  calc (position + distance) % size = position
    _ ↔ (position + distance) % size = position % size := by rw [own]
    _ ↔ (position + distance - position) % size = 0 := Int.emod_eq_emod_iff_emod_sub_eq_zero
    _ ↔ (size : Int) ∣ distance := by rw [moved, Int.dvd_iff_emod_eq_zero]

end Field

section Wrapping

variable {state : State Registers} (rows : 0 < state.registers.field.height)
  (fewRows : state.registers.field.height ≤ Word.greatest)
  (narrow : state.registers.field.widest ≤ Word.greatest)
  (inBox : state.registers.field.InBox state.registers.pointer) (running : state.ending = none)

include rows fewRows narrow inBox running

/-- Moves on a field that wraps are never cut short. -/
theorem moveTimes_of_wrap (count : Nat) :
    moveTimes true state count =
      placed state (state.registers.field.translated state.registers.pointer count) := by
  have walked := Field.walk?_of_wrap rows fewRows narrow inBox count
  have passes : Passes true (fun _ => false) state count _ := ⟨walked, fun _ _ _ _ _ => rfl⟩
  rw [moveTimes_eq]
  exact passes.moveUntil_eq running

variable (dx : state.registers.pointer.dx.toInt ≠ Word.least)
  (dy : state.registers.pointer.dy.toInt ≠ Word.least)

include dx dy

/-- A jump goes as far as its number says and the limit allows, ahead or back. -/
theorem jump_of_wrap (count : Word) :
    jump true state count = placed state (state.registers.field.translated state.registers.pointer
      (count.toInt.sign * (min count.toInt.natAbs state.registers.field.boxSize : Nat))) := by
  let moves : Nat := min count.toInt.natAbs state.registers.field.boxSize
  by_cases backward : count < 0
  · have negative : count.toInt < 0 := Int64.lt_iff_toInt_lt.1 backward
    have turned : (steer state .reflect).registers.field.InBox
        (steer state .reflect).registers.pointer :=
      ⟨inBox.left, inBox.right, inBox.top, inBox.bottom⟩
    have moved := @moveTimes_of_wrap (steer state .reflect) rows fewRows narrow turned running moves
    have back := state.registers.field.reflect_translated dx dy (moves : Int)
    rw [jump, if_pos backward, Int.sign_eq_neg_one_of_neg negative, Int.neg_mul, Int.one_mul, ← back]
    exact congrArg (steer · Pointer.reflect) moved
  · have nonnegative : 0 ≤ count.toInt := by
      apply Int.not_lt.1
      intro negative
      exact backward (Int64.lt_iff_toInt_lt.2 negative)
    have ahead : count.toInt.sign * (moves : Int) = moves := by
      rcases Int.lt_or_eq_of_le nonnegative with positive | zero
      · rw [Int.sign_eq_one_of_pos positive, Int.one_mul]
      · simp [moves, ← zero]
    rw [jump, if_neg backward, ahead]
    exact moveTimes_of_wrap rows fewRows narrow inBox running moves

theorem jump_of_near {count : Word} (near : count.toInt.natAbs ≤ state.registers.field.boxSize) :
    jump true state count =
      placed state (state.registers.field.translated state.registers.pointer count.toInt) := by
  rw [jump_of_wrap rows fewRows narrow inBox running dx dy, Nat.min_eq_left near, Int.sign_mul_natAbs]

/-- A jump that meets the limit ends where it began. -/
theorem jump_of_far {count : Word} (far : state.registers.field.boxSize ≤ count.toInt.natAbs) :
    jump true state count = placed state state.registers.pointer := by
  rw [jump_of_wrap rows fewRows narrow inBox running dx dy, Nat.min_eq_right far,
    Field.translated_rounds inBox]

end Wrapping

/-- On a field that wraps, a jump by no more cells than the box has places goes as far as its number says,
and a longer one ends where it began. The step stays as it was, and the program goes on. So the pointer is
where the number says exactly if this is no farther than the limit or at the end of a whole number of
rounds. The limit is below `2 ^ 64` for a source of less than `2 ^ 32` characters. -/
theorem jump_goes_within_box (options : Options) (source : String) (field : Field)
    (loaded : load options source = .ok field) (wraps : options.wrap = true)
    (short : source.length ≤ Word.greatest) (rows : 0 < field.height) (input : String)
    (dice : Dice) :
    let machine := machine options field dice
    ∀ cycles state, machine.Visits (machine.initial input) cycles state → state.ending = none →
      let field := state.registers.field
      let pointer := state.registers.pointer
      let width := max 1 field.widest
      pointer.dx.toInt ≠ Word.least → pointer.dy.toInt ≠ Word.least → ∀ stack : Stack,
        let count := stack.pop.1.toInt
        let x := (pointer.x.toInt + count * pointer.dx.toInt) % (width : Nat)
        let y := (pointer.y.toInt + count * pointer.dy.toInt) % (field.height : Nat)
        ∃ last : Pointer,
          execute options .jumpForward { state with stack } =
            ⟨placed { state with stack := stack.pop.2 } last, none⟩ ∧
          (execute options .jumpForward { state with stack }).state.done = false ∧
          last.dx = pointer.dx ∧ last.dy = pointer.dy ∧
          (count.natAbs ≤ field.height * width → last.x.toInt = x ∧ last.y.toInt = y) ∧
          (field.height * width < count.natAbs → last = pointer) ∧
          (source.length < 2 ^ 32 → field.height * width < UInt64.size) ∧
          (last.x.toInt = x ∧ last.y.toInt = y ↔
            count.natAbs ≤ field.height * width ∨
              (width : Int) ∣ count * pointer.dx.toInt ∧
                (field.height : Int) ∣ count * pointer.dy.toInt) := by
  intro machine cycles state visited running current pointer width dx dy stack count x y
  obtain ⟨_, rfl⟩ := load_eq_ok_iff.1 loaded
  obtain ⟨height, widest⟩ := Field.ofSource_le source
  have fewRows : ((Field.ofSource source).height : Int) ≤ Word.greatest := by omega
  have narrow : ((Field.ofSource source).widest : Int) ≤ Word.greatest := by omega
  obtain ⟨widened, inBox, _⟩ := settled_of_visits wraps rows fewRows narrow visited
  have fewRowsNow := widened.height ▸ fewRows
  have narrowNow := widened.narrow narrow
  have size : current.boxSize = current.height * width := by rw [Field.boxSize, Nat.max_comm]
  have executed : execute options .jumpForward { state with stack } =
      ⟨jump true { state with stack := stack.pop.2 } stack.pop.1, none⟩ := by
    simp only [execute, wraps]
    rfl
  have fits (few : source.length < 2 ^ 32) : current.height * width < UInt64.size := by
    have product : (Field.ofSource source).height * max (Field.ofSource source).widest Field.widthLimit ≤
        (2 ^ 32 - 1) * (2 ^ 32 - 1) := by
      unfold Field.widthLimit
      exact Nat.mul_le_mul (by omega) (by omega)
    have bounded := size ▸ widened.boxSize_le
    have small : (2 ^ 32 - 1) * (2 ^ 32 - 1) < UInt64.size := by decide
    omega
  have goesOn (last : Pointer) : (placed { state with stack := stack.pop.2 } last).done = false := by
    simp [State.done, ending_placed, running]
  by_cases near : count.natAbs ≤ current.height * width
  · have jumped := @jump_of_near { state with stack := stack.pop.2 } inBox.height_pos fewRowsNow narrowNow
      inBox running dx dy stack.pop.1 (size ▸ near)
    have arrived := Field.toInt_translated inBox.height_pos fewRowsNow narrowNow pointer count
    rw [executed, jumped]
    exact ⟨_, rfl, goesOn _, rfl, rfl, fun _ => arrived, fun far => absurd near (Nat.not_le.2 far), fits,
      iff_of_true arrived (.inl near)⟩
  · have far : current.boxSize ≤ count.natAbs := by omega
    have jumped := @jump_of_far { state with stack := stack.pop.2 } inBox.height_pos fewRowsNow narrowNow
      inBox running dx dy stack.pop.1 far
    rw [executed, jumped]
    refine ⟨pointer, rfl, goesOn _, rfl, rfl, fun within => absurd within near, fun _ => rfl, fits, ?_⟩
    rw [or_iff_right near, ← Field.emod_eq_self_iff inBox.left inBox.right,
      ← Field.emod_eq_self_iff inBox.top inBox.bottom]
    exact and_congr eq_comm eq_comm

/-- A jump by nine cells on a row of four. -/
def shortRow : String :=
  "9j.@"

theorem jumpForward_shortRow :
    let options : Options := { wrap := true, dialect := .befunge98 }
    let machine := machine options (.ofSource shortRow)
    ∃ state, machine.after? 1 (machine.initial "") = some state ∧
      machine.decode state = some .jumpForward ∧ state.registers.field = .ofSource shortRow ∧
      state.registers.pointer = ⟨1, 0, 1, 0⟩ ∧ state.stack.pop.1 = 9 ∧
      (execute options .jumpForward state).state.registers.pointer = ⟨1, 0, 1, 0⟩ := by
  intro options machine
  have computed : (machine.after? 1 (machine.initial "")).map (fun state =>
      (machine.decode state, state.registers.field, state.registers.pointer, state.stack.pop.1,
        (execute options .jumpForward state).state.registers.pointer)) =
      some (some .jumpForward, .ofSource shortRow, ⟨1, 0, 1, 0⟩, 9, ⟨1, 0, 1, 0⟩) := by decide +kernel
  obtain ⟨state, reached, seen⟩ := Option.map_eq_some_iff.1 computed
  simp only [Prod.mk.injEq] at seen
  exact ⟨state, reached, seen⟩

/-- There the jump ends where it began, while one by three cells back goes around the row. -/
theorem jump_goes_within_short_row :
    let options : Options := { wrap := true, dialect := .befunge98 }
    let field : Field := .ofSource shortRow
    let machine := machine options field
    let back : Stack := .ofList [-3]
    load options shortRow = .ok field ∧ shortRow.length ≤ Word.greatest ∧ 0 < field.height ∧
      ∃ state, machine.after? 1 (machine.initial "") = some state ∧ state.ending = none ∧
        state.registers.pointer.dx.toInt ≠ Word.least ∧ state.registers.pointer.dy.toInt ≠ Word.least ∧
        (∃ last, execute options .jumpForward state =
          ⟨placed { state with stack := state.stack.pop.2 } last, none⟩ ∧ last = ⟨1, 0, 1, 0⟩) ∧
        ∃ last, execute options .jumpForward { state with stack := back } =
          ⟨placed { state with stack := back.pop.2 } last, none⟩ ∧
          last.x.toInt = 2 ∧ last.y.toInt = 0 := by
  intro options field machine back
  have loaded : load options shortRow = .ok field := rfl
  have short : shortRow.length ≤ Word.greatest := by decide
  have rows : 0 < field.height := by decide
  obtain ⟨state, reached, _, same, pointer, nine, _⟩ := jumpForward_shortRow
  have running : state.ending = none := Machine.running_of_after? rfl reached
  have jumps := jump_goes_within_box options shortRow field loaded rfl short rows "" (.ofSeed none) 1 state
    (.reached (Machine.reaches_of_after? rfl reached)) running
  rw [same, pointer] at jumps
  have dx : (1 : Word).toInt ≠ Word.least := by decide
  have dy : (0 : Word).toInt ≠ Word.least := by decide
  obtain ⟨last, jumped, _, _, _, _, far, _⟩ := jumps dx dy state.stack
  obtain ⟨other, jumpedBack, _, _, _, near, _⟩ := jumps dx dy back
  rw [nine] at far
  refine ⟨loaded, short, rows, state, reached, running, pointer ▸ dx, pointer ▸ dy,
    ⟨last, jumped, far (by decide)⟩, other, jumpedBack, ?_⟩
  exact near (by decide)

/-- Not every jump goes as far as its number says. -/
theorem not_every_jump_goes_its_number :
    ¬ ∀ (options : Options) (source : String) (field : Field), load options source = .ok field →
      options.wrap = true → source.length ≤ Word.greatest → 0 < field.height →
        let machine := machine options field
        ∀ input cycles state, machine.Visits (machine.initial input) cycles state →
          state.ending = none →
          let field := state.registers.field
          let pointer := state.registers.pointer
          let width := max 1 field.widest
          pointer.dx.toInt ≠ Word.least → pointer.dy.toInt ≠ Word.least →
          let count := state.stack.pop.1.toInt
          let last := (execute options .jumpForward state).state.registers.pointer
          last.x.toInt = (pointer.x.toInt + count * pointer.dx.toInt) % (width : Nat) ∧
            last.y.toInt = (pointer.y.toInt + count * pointer.dy.toInt) % (field.height : Nat) := by
  intro always
  obtain ⟨state, reached, _, same, pointer, nine, jumped⟩ := jumpForward_shortRow
  have goes := always { wrap := true, dialect := .befunge98 } shortRow (.ofSource shortRow) rfl rfl
    (by decide) (by decide) "" 1 state (.reached (Machine.reaches_of_after? rfl reached))
    (Machine.running_of_after? rfl reached)
  rw [same, pointer, nine, jumped] at goes
  exact absurd (goes (by decide) (by decide)).1 (by decide)

end Esoterica.Befunge
