import Mathlib.Order.Bounds.Basic
import Esoterica.Proofs.Befunge.Strides

/-!
Comments on a field that wraps. A comment goes from one semicolon to the next that the pointer comes to,
over all places of the box. The limit on its length counts only those with a cell, so that on a field
with short or empty rows the pointer can stop in the midst of a comment.
-/

namespace Esoterica.Befunge

section Comment

variable {options : Options} {state : State Registers} {field : Field} {pointer : Pointer}

theorem Op.eq_semicolon_of_decode {dialect : Dialect} {cell : Word}
    (decoded : Op.decode dialect cell = .skipComment) : cell = semicolon := by
  have primary (c : Char) : Op.primary? c ≠ some .skipComment := by
    unfold Op.primary?
    split
    · simp
    · split <;> simp
  have secondary (c : Char) (known : Op.secondary? c = some .skipComment) : c = ';' := by
    unfold Op.secondary? at known
    split at known
    · simp at known
    · split at known <;> simp_all
  unfold Op.decode at decoded
  split at decoded
  · cases dialect <;> cases decoded
  · rename_i c scalar
    split at decoded
    · rename_i op known
      exact (primary c (decoded ▸ known)).elim
    · cases dialect with
      | befunge93 => cases decoded
      | befunge98 =>
          cases known : Op.secondary? c with
          | none => simp [known, Op.unknown] at decoded
          | some op =>
              rw [known, Option.getD_some] at decoded
              rw [Word.eq_ofChar_of_scalar? scalar, secondary c (decoded ▸ known)]
              rfl

theorem cell?_of_decode_skipComment (decoded : decode options state = some .skipComment) :
    state.registers.field.cell? state.registers.pointer.x state.registers.pointer.y =
      some semicolon := by
  obtain ⟨cell, seen, equal⟩ := Option.map_eq_some_iff.1 decoded
  split at equal
  · split at equal <;> cases equal
  · rw [Op.eq_semicolon_of_decode equal] at seen
    exact Field.look?_eq_semicolon_iff.1 seen

/-- The numbers of steps after which the pointer is on a semicolon. -/
def Field.semicolonsAhead (field : Field) (pointer : Pointer) : Set Nat :=
  {steps | 0 < steps ∧ ∃ place, field.walk? true pointer steps = some place ∧
    field.cell? place.x place.y = some semicolon}

/-- With rows of one length, the box has no other places than the cells. -/
theorem Field.boxSize_of_even (even : ∀ y < field.height, field.width y = field.widest)
    (onCell : (field.cell? pointer.x pointer.y).isSome) : field.boxSize = field.area := by
  obtain ⟨left, _, column⟩ := cell?_isSome_iff.1 onCell
  have inWidest := field.width_le_widest pointer.y.toInt.toNat
  have nonempty : max field.widest 1 = field.widest := by omega
  rw [area_eq_sum, Finset.sum_const_nat fun y member => even y (Finset.mem_range.1 member),
    Finset.card_range, boxSize, nonempty]

section Wrapping

variable (rows : 0 < state.registers.field.height)
  (fewRows : state.registers.field.height ≤ Word.greatest)
  (narrow : state.registers.field.widest ≤ Word.greatest)
  (inBox : state.registers.field.InBox state.registers.pointer)
  (here : state.registers.field.cell? state.registers.pointer.x state.registers.pointer.y =
    some semicolon)

include rows in
/-- On a field that wraps, moves stop only on a semicolon. -/
theorem Passes.isLeast {steps : Nat} {last : Pointer}
    (passes : Passes true (onSemicolon true) state steps last) (running : state.ending = none)
    (stops : Stops (onSemicolon true) (move true (placed state last))) :
    ∃ found, IsLeast (state.registers.field.semicolonsAhead state.registers.pointer) (steps + 1) ∧
      state.registers.field.walk? true state.registers.pointer (steps + 1) = some found ∧
      state.registers.field.cell? found.x found.y = some semicolon ∧
      move true (placed state last) = placed state found := by
  obtain ⟨found, stepped⟩ := Option.isSome_iff_exists.1 (Field.step?_isSome rows last)
  have walked : state.registers.field.walk? true state.registers.pointer (steps + 1) = some found := by
    rw [Field.walk?, passes.walked, Option.bind_some, stepped]
  have moved : move true (placed state last) = placed state found :=
    move_of_step? (placed state last) stepped
  have seen : state.registers.field.cell? found.x found.y = some semicolon := by
    simpa [moved, Stops, State.done, ending_placed, running, onSemicolon_placed] using stops
  refine ⟨found, ⟨⟨Nat.succ_pos steps, found, walked, seen⟩, ?_⟩, walked, seen, moved⟩
  rintro earlier ⟨positive, place, reached, semicolonThere⟩
  by_contra sooner
  have unwanted := passes.unwanted earlier place positive (by omega) reached
  simp [onSemicolon_placed, semicolonThere] at unwanted

include rows fewRows narrow inBox here

/-- The pointer comes back to its semicolon, if not to another one before. -/
theorem exists_passes_to_semicolon :
    ∃ steps last, steps < state.registers.field.boxSize ∧
      Passes true (onSemicolon true) state steps last ∧
      Stops (onSemicolon true) (move true (placed state last)) := by
  rcases passes_or_stops true (onSemicolon true) state state.registers.field.boxSize with
    ⟨last, passes⟩ | stopping
  · -- After a full round the pointer would have passed the semicolon that it started from.
    have round := Field.walk?_of_wrap rows fewRows narrow inBox state.registers.field.boxSize
    have back := Field.translated_rounds inBox 1
    rw [Int.one_mul] at back
    rw [back] at round
    have positive : 0 < state.registers.field.boxSize := Nat.mul_pos rows (by omega)
    have unwanted := passes.unwanted _ _ positive (Nat.le_refl _) round
    simp [onSemicolon_placed, here] at unwanted
  · exact stopping

/-- A comment is followed to its end, or as far as the limit goes. -/
theorem moveToSemicolon_of_wrap (running : state.ending = none) {limit : Nat} (positive : 0 < limit) :
    ∃ distance last,
      IsLeast (state.registers.field.semicolonsAhead state.registers.pointer) distance ∧
      distance ≤ state.registers.field.boxSize ∧
      state.registers.field.walk? true state.registers.pointer (min distance limit) = some last ∧
      moveToSemicolon true state limit = placed state last ∧
      (state.registers.field.cell? last.x last.y = some semicolon ↔ distance ≤ limit) := by
  obtain ⟨steps, last, within, passes, stops⟩ :=
    exists_passes_to_semicolon rows fewRows narrow inBox here
  obtain ⟨found, least, walked, seen, moved⟩ := passes.isLeast rows running stops
  rw [moveToSemicolon_eq]
  rcases Nat.lt_or_ge steps limit with reached | early
  · refine ⟨steps + 1, found, least, within, ?_, ?_, iff_of_true seen reached⟩
    · rwa [Nat.min_eq_left reached]
    · rw [passes.moveUntil_of_stops running stops reached, moved]
  · obtain ⟨place, passed⟩ := passes.take early
    have unwanted := passed.unwanted limit place positive (Nat.le_refl limit) passed.walked
    refine ⟨steps + 1, place, least, within, ?_, passed.moveUntil_eq running, iff_of_false ?_ ?_⟩
    · rw [Nat.min_eq_right (by omega), passed.walked]
    · simpa [onSemicolon_placed] using unwanted
    · omega

end Wrapping

end Comment

section Running

variable {options : Options} {field : Field} {dice : Dice} {state : State Registers} {input : String}
  {cycles : Nat}

theorem decode_of_step_asked
    (asked : decode options state = some .halt ∨ decode options state = some .quit) :
    decode options ((machine options field dice).step state).state = decode options state := by
  rcases asked with decoded | decoded
  · simp only [Machine.step, show (machine options field dice).decode state = some .halt from decoded]
    rfl
  · simp only [Machine.step, show (machine options field dice).decode state = some .quit from decoded]
    rfl

/-- On a field that wraps, a program that has been stopped stands on the instruction for it. -/
theorem asked_of_visits (wraps : options.wrap = true) (rows : 0 < field.height)
    (fewRows : field.height ≤ Word.greatest) (narrow : field.widest ≤ Word.greatest)
    (visited :
      (machine options field dice).Visits ((machine options field dice).initial input) cycles state) :
    state.ending = none ∨ decode options state = some .halt ∨ decode options state = some .quit := by
  have initially : Settled field ((machine options field dice).initial input) :=
    settled_of_visits wraps rows fewRows narrow (.reached .start)
  refine (visited.invariant (fun state => Settled field state ∧ (state.ending = none ∨
    decode options state = some .halt ∨ decode options state = some .quit)) ⟨initially, .inl rfl⟩ ?_).2
  rintro state running ⟨settled, _⟩
  obtain ⟨after, goesOn | asked⟩ := settled.step dice wraps rows fewRows narrow running
  · exact ⟨after, .inl goesOn⟩
  · rw [decode_of_step_asked asked]
    exact ⟨after, .inr asked⟩

end Running

/-- On a field that wraps, a semicolon has a match, at a distance of no more steps than the box has
places: the first semicolon that the pointer comes to, which may be the one it stands on. The comment is
skipped exactly up to the match if that is within as many steps as there are cells and one more, and
otherwise up to a place before it where there is no semicolon. With rows of one length the match is
always within. -/
theorem comment_skipped_within_area (options : Options) (source : String) (field : Field)
    (loaded : load options source = .ok field) (wraps : options.wrap = true)
    (short : source.length ≤ Word.greatest) (input : String) (dice : Dice) :
    let machine := machine options field dice
    ∀ cycles state, machine.Visits (machine.initial input) cycles state →
      machine.decode state = some .skipComment →
      let field := state.registers.field
      let pointer := state.registers.pointer
      ∃ distance last, IsLeast (field.semicolonsAhead pointer) distance ∧
        distance ≤ field.boxSize ∧
        field.walk? true pointer (min distance (field.area + 1)) = some last ∧
        execute options .skipComment state = ⟨placed state last, none⟩ ∧
        (field.cell? last.x last.y = some semicolon ↔ distance ≤ field.area + 1) ∧
        ((∀ y < field.height, field.width y = field.widest) → distance ≤ field.area + 1) := by
  intro machine cycles state visited decoded current pointer
  obtain ⟨_, rfl⟩ := load_eq_ok_iff.1 loaded
  obtain ⟨height, widest⟩ := Field.ofSource_le source
  have fewRows : ((Field.ofSource source).height : Int) ≤ Word.greatest := by omega
  have narrow : ((Field.ofSource source).widest : Int) ≤ Word.greatest := by omega
  have here := cell?_of_decode_skipComment decoded
  have onCell : (current.cell? pointer.x pointer.y).isSome := Option.isSome_iff_exists.2 ⟨_, here⟩
  have inBox := Field.inBox_of_cell? onCell
  have widened := widened_of_visits visited
  have rows : 0 < (Field.ofSource source).height := widened.height ▸ inBox.height_pos
  have running : state.ending = none := by
    have stopped := asked_of_visits wraps rows fewRows narrow visited
    rw [show decode options state = some .skipComment from decoded] at stopped
    simpa using stopped
  have positive : 0 < current.area + 1 := Nat.succ_pos _
  obtain ⟨distance, last, least, within, walked, moved, reached⟩ :=
    moveToSemicolon_of_wrap inBox.height_pos (widened.height ▸ fewRows) (widened.narrow narrow) inBox
      here running positive
  refine ⟨distance, last, least, within, walked, ?_, reached, fun even => ?_⟩
  · simp only [execute, wraps]
    rw [moved]
  · have whole : current.boxSize = current.area := Field.boxSize_of_even even onCell
    exact (within.trans_eq whole).trans (Nat.le_succ _)

/-- A comment of nine steps down over five rows without a cell, on a field of seven cells. -/
def gapped : String :=
  "v\n;\n1\n.\n@\n\n\n\n\n\n;\n@"

theorem skipComment_gapped :
    let options : Options := { wrap := true, dialect := .befunge98 }
    let machine := machine options (.ofSource gapped)
    ∃ state, machine.after? 1 (machine.initial "") = some state ∧
      machine.decode state = some .skipComment ∧ state.registers.field = .ofSource gapped ∧
      state.registers.pointer = ⟨0, 1, 0, 1⟩ ∧
      (execute options .skipComment state).state.registers.pointer = ⟨0, 9, 0, 1⟩ := by
  intro options machine
  have computed : (machine.after? 1 (machine.initial "")).map (fun state =>
      (machine.decode state, state.registers.field, state.registers.pointer,
        (execute options .skipComment state).state.registers.pointer)) =
      some (some .skipComment, .ofSource gapped, ⟨0, 1, 0, 1⟩, ⟨0, 9, 0, 1⟩) := by decide +kernel
  obtain ⟨state, reached, seen⟩ := Option.map_eq_some_iff.1 computed
  simp only [Prod.mk.injEq] at seen
  exact ⟨state, reached, seen⟩

/-- The limit of eight steps is one short of the match, and there is no cell where the pointer stops. -/
theorem comment_cut_short_in_gap :
    let options : Options := { wrap := true, dialect := .befunge98 }
    let field : Field := .ofSource gapped
    let machine := machine options field
    load options gapped = .ok field ∧ gapped.length ≤ Word.greatest ∧ field.area = 7 ∧
      IsLeast (field.semicolonsAhead ⟨0, 1, 0, 1⟩) 9 ∧
      ∃ state last, machine.after? 1 (machine.initial "") = some state ∧
        machine.decode state = some .skipComment ∧ state.registers.pointer = ⟨0, 1, 0, 1⟩ ∧
        execute options .skipComment state = ⟨placed state last, none⟩ ∧
        field.cell? last.x last.y ≠ some semicolon := by
  intro options field machine
  have loaded : load options gapped = .ok field := rfl
  have short : gapped.length ≤ Word.greatest := by decide
  have area : field.area = 7 := by decide
  obtain ⟨state, reached, decoded, same, pointer, skipped⟩ := skipComment_gapped
  obtain ⟨distance, last, least, _, _, executed, found, _⟩ :=
    comment_skipped_within_area options gapped field loaded rfl short "" (.ofSeed none) 1 state
      (.reached (Machine.reaches_of_after? rfl reached)) decoded
  rw [same] at least found
  rw [pointer] at least
  obtain rfl : ⟨0, 9, 0, 1⟩ = last := by
    rw [executed] at skipped
    exact skipped.symm
  have missed : field.cell? 0 9 ≠ some semicolon := by decide
  have beyond : ¬ distance ≤ field.area + 1 := fun within => missed (found.2 within)
  have ninth : distance ≤ 9 := least.2 ⟨by decide, ⟨0, 10, 0, 1⟩, by decide, by decide⟩
  obtain rfl : distance = 9 := by omega
  exact ⟨loaded, short, area, least, state, _, reached, decoded, pointer, executed, missed⟩

/-- Not every comment is skipped up to its match. -/
theorem not_every_comment_reaches_match :
    ¬ ∀ (options : Options) (source : String) (field : Field), load options source = .ok field →
      options.wrap = true → source.length ≤ Word.greatest →
        let machine := machine options field
        ∀ input cycles state, machine.Visits (machine.initial input) cycles state →
          machine.decode state = some .skipComment →
          let field := state.registers.field
          let pointer := state.registers.pointer
          ∃ distance, IsLeast (field.semicolonsAhead pointer) distance ∧
            field.walk? true pointer distance =
              some (execute options .skipComment state).state.registers.pointer := by
  intro always
  obtain ⟨state, reached, decoded, same, _, skipped⟩ := skipComment_gapped
  obtain ⟨distance, ⟨⟨_, place, walked, found⟩, _⟩, arrived⟩ :=
    always { wrap := true, dialect := .befunge98 } gapped (.ofSource gapped) rfl rfl (by decide) "" 1
      state (.reached (Machine.reaches_of_after? rfl reached)) decoded
  rw [arrived, Option.some.injEq, skipped] at walked
  rw [← walked, same] at found
  exact absurd found (by decide)

end Esoterica.Befunge
