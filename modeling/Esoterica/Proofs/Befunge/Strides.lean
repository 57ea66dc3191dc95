import Mathlib.Algebra.Order.BigOperators.Group.Finset
import Mathlib.Order.Bounds.Basic
import Esoterica.Proofs.Befunge.Torus
import Esoterica.Proofs.Befunge.Walk

/-!
Moves over several cells, by a number that an instruction takes from the stack or up to the end of a
comment. Both are limited by the size of the field. Without a way around no walk is longer than that,
because it comes to no place twice.
-/

namespace Esoterica.Befunge

namespace Field

variable {field : Field} {wrap : Bool} {pointer last next : Pointer} {steps : Nat}

theorem walk?_isSome_of_le {earlier : Nat} (walked : (field.walk? wrap pointer steps).isSome)
    (sooner : earlier ≤ steps) : (field.walk? wrap pointer earlier).isSome := by
  induction steps with
  | zero =>
      cases Nat.le_zero.1 sooner
      exact walked
  | succ steps inductionHypothesis =>
      rcases Nat.lt_or_eq_of_le sooner with before | rfl
      · rw [walk?] at walked
        exact inductionHypothesis (Option.isSome_of_isSome_bind walked) (Nat.le_of_lt_succ before)
      · exact walked

/-- A semicolon is seen only where there is a cell with one. -/
theorem look?_eq_semicolon_iff :
    field.look? wrap pointer = some semicolon ↔ field.cell? pointer.x pointer.y = some semicolon := by
  have blank : space ≠ semicolon := by decide
  unfold look?
  cases field.cell? pointer.x pointer.y with
  | some cell => rfl
  | none =>
      dsimp only
      split <;> simp [blank]

/-- Without a way around, a walk goes straight on. -/
theorem walk?_straight (walked : field.walk? false pointer steps = some last) :
    last.x.toInt = pointer.x.toInt + steps * pointer.dx.toInt ∧
      last.y.toInt = pointer.y.toInt + steps * pointer.dy.toInt ∧
      last.dx = pointer.dx ∧ last.dy = pointer.dy := by
  induction steps generalizing last with
  | zero =>
      cases walked
      simp
  | succ steps inductionHypothesis =>
      obtain ⟨middle, earlier, stepped⟩ := Option.bind_eq_some_iff.1 walked
      obtain ⟨x, y, dx, dy⟩ := inductionHypothesis earlier
      obtain ⟨nextX, nextY, nextDx, nextDy⟩ :=
        Pointer.advance?_eq_some_iff.1 (step?_straight_iff.1 stepped).1
      rw [Int.natCast_succ, Int.add_mul, Int.add_mul, Int.one_mul, Int.one_mul]
      rw [dx] at nextX nextDx
      rw [dy] at nextY nextDy
      exact ⟨by omega, by omega, nextDx, nextDy⟩

theorem cell?_of_walk? (there : (field.cell? pointer.x pointer.y).isSome)
    (walked : field.walk? false pointer steps = some last) : (field.cell? last.x last.y).isSome := by
  cases steps with
  | zero =>
      cases walked
      exact there
  | succ steps =>
      obtain ⟨middle, _, stepped⟩ := Option.bind_eq_some_iff.1 walked
      exact (step?_straight_iff.1 stepped).2

theorem walk?_of_still (still : pointer.dx = 0 ∧ pointer.dy = 0)
    (walked : field.walk? false pointer steps = some last) : last = pointer := by
  obtain ⟨x, y, dx, dy⟩ := walk?_straight walked
  rw [still.1, Int64.toInt_zero, Int.mul_zero, Int.add_zero, Int64.toInt_inj] at x
  rw [still.2, Int64.toInt_zero, Int.mul_zero, Int.add_zero, Int64.toInt_inj] at y
  cases last
  cases pointer
  simp_all

/-- The place after some steps straight on, its row first. -/
def placeAfter (pointer : Pointer) (steps : Nat) : (_ : Nat) × Nat :=
  ⟨(pointer.y.toInt + steps * pointer.dy.toInt).toNat,
    (pointer.x.toInt + steps * pointer.dx.toInt).toNat⟩

/-- A walk that moves at all comes to no place twice, so that it takes fewer steps than there are places
where it can be. -/
theorem lt_card_of_walk? (moving : pointer.dx ≠ 0 ∨ pointer.dy ≠ 0)
    (walked : field.walk? false pointer steps = some last) (places : Finset ((_ : Nat) × Nat))
    (stays : ∀ earlier place, field.walk? false pointer earlier = some place →
      0 ≤ place.x.toInt ∧ 0 ≤ place.y.toInt ∧ ⟨place.y.toInt.toNat, place.x.toInt.toNat⟩ ∈ places) :
    steps < places.card := by
  have within (earlier : Nat) (member : earlier ∈ Finset.range (steps + 1)) :
      0 ≤ pointer.x.toInt + earlier * pointer.dx.toInt ∧
        0 ≤ pointer.y.toInt + earlier * pointer.dy.toInt ∧ placeAfter pointer earlier ∈ places := by
    have sooner : earlier ≤ steps := Nat.le_of_lt_succ (Finset.mem_range.1 member)
    obtain ⟨place, reached⟩ := Option.isSome_iff_exists.1
      (walk?_isSome_of_le (Option.isSome_iff_exists.2 ⟨last, walked⟩) sooner)
    obtain ⟨x, y, _⟩ := walk?_straight reached
    obtain ⟨left, top, inside⟩ := stays earlier place reached
    rw [x, y] at inside
    exact ⟨x ▸ left, y ▸ top, inside⟩
  have distinct : Set.InjOn (placeAfter pointer) (Finset.range (steps + 1)) := by
    intro first firstMember second secondMember same
    obtain ⟨firstLeft, firstTop, _⟩ := within first firstMember
    obtain ⟨secondLeft, secondTop, _⟩ := within second secondMember
    simp only [placeAfter, Sigma.mk.injEq, heq_eq_eq] at same
    rcases moving with moving | moving
    · have nonzero : pointer.dx.toInt ≠ 0 := fun zero => moving (Int64.toInt_inj.1 zero)
      exact Int.natCast_inj.1 (Int.eq_of_mul_eq_mul_right nonzero (by omega))
    · have nonzero : pointer.dy.toInt ≠ 0 := fun zero => moving (Int64.toInt_inj.1 zero)
      exact Int.natCast_inj.1 (Int.eq_of_mul_eq_mul_right nonzero (by omega))
  have counted := Finset.card_le_card_of_injOn (placeAfter pointer)
    (fun earlier member => (within earlier member).2.2) distinct
  rwa [Finset.card_range] at counted

/-- The places that have a cell. -/
def cells (field : Field) : Finset ((_ : Nat) × Nat) :=
  (Finset.range field.height).sigma fun y => Finset.range (field.width y)

theorem foldl_add_size (rows : List (Array Word)) (first : Nat) :
    rows.foldl (fun area row => area + row.size) first =
      first + ∑ y ∈ Finset.range rows.length, ((rows[y]?).map Array.size).getD 0 := by
  induction rows generalizing first with
  | nil => simp
  | cons row rows inductionHypothesis =>
      rw [List.foldl_cons, inductionHypothesis, List.length_cons, Finset.sum_range_succ']
      simp only [List.getElem?_cons_succ, List.getElem?_cons_zero, Option.map_some, Option.getD_some]
      omega

theorem area_eq_sum (field : Field) :
    field.area = ∑ y ∈ Finset.range field.height, field.width y := by
  rw [area, ← Array.foldl_toList, foldl_add_size, Nat.zero_add, Array.length_toList]
  simp only [height, width, Array.getElem?_toList]

theorem card_cells (field : Field) : field.cells.card = field.area := by
  rw [cells, Finset.card_sigma, area_eq_sum]
  simp only [Finset.card_range]

theorem mem_cells {x y : Word} (there : (field.cell? x y).isSome) :
    0 ≤ x.toInt ∧ 0 ≤ y.toInt ∧ ⟨y.toInt.toNat, x.toInt.toNat⟩ ∈ field.cells := by
  obtain ⟨left, top, inRow⟩ := cell?_isSome_iff.1 there
  have row : y.toInt.toNat < field.height := lt_height_of_width_pos (by omega)
  refine ⟨left, top, Finset.mem_sigma.2 ⟨Finset.mem_range.2 row, Finset.mem_range.2 ?_⟩⟩
  dsimp only
  omega

/-- A walk from a cell is shorter than the field has cells. -/
theorem lt_area_of_walk? (there : (field.cell? pointer.x pointer.y).isSome)
    (moving : pointer.dx ≠ 0 ∨ pointer.dy ≠ 0)
    (walked : field.walk? false pointer steps = some last) : steps < field.area := by
  rw [← card_cells]
  exact lt_card_of_walk? moving walked _ fun _ _ reached => mem_cells (cell?_of_walk? there reached)

/-- The number of places in the box around all rows. -/
def boxSize (field : Field) : Nat :=
  field.height * max field.widest 1

/-- The box grows no further than rows can. -/
theorem Widened.boxSize_le {later : Field} (widened : field.Widened later) :
    later.boxSize ≤ field.height * max field.widest widthLimit := by
  have positive : 1 ≤ widthLimit := by decide
  have grown := widened.widest_le_limit
  rw [boxSize, widened.height]
  exact Nat.mul_le_mul_left _ (by omega)

/-- As many steps as the box has places lead back to the start, whatever the step is, and so do several
such rounds in either direction. -/
theorem translated_rounds (inBox : field.InBox pointer) (rounds : Int) :
    field.translated pointer (rounds * field.boxSize) = pointer := by
  have turns (position delta : Int) (size other : Nat) :
      (position + rounds * (other * size : Nat) * delta) % size = position % size := by
    rw [Int.natCast_mul, ← Int.mul_assoc, Int.mul_right_comm, Int.add_mul_emod_self_right]
  have swapped : field.boxSize = max 1 field.widest * field.height := by
    rw [boxSize, Nat.mul_comm, Nat.max_comm]
  have x := turns pointer.x.toInt pointer.dx.toInt (max 1 field.widest) field.height
  have y := turns pointer.y.toInt pointer.dy.toInt field.height (max 1 field.widest)
  rw [Nat.mul_comm, ← swapped] at x
  rw [← swapped] at y
  simp only [translated, x, y, Int64.ofInt_toInt,
    Int.emod_eq_of_lt inBox.left inBox.right, Int.emod_eq_of_lt inBox.top inBox.bottom]

/-- A walk from anywhere in the box is shorter than the box has places. -/
theorem lt_boxSize_of_walk? (inBox : field.InBox pointer) (moving : pointer.dx ≠ 0 ∨ pointer.dy ≠ 0)
    (walked : field.walk? false pointer steps = some last) : steps < field.boxSize := by
  let box : Finset ((_ : Nat) × Nat) :=
    (Finset.range field.height).sigma fun _ => Finset.range (max field.widest 1)
  have size : box.card = field.boxSize := by simp [box, boxSize]
  rw [← size]
  refine lt_card_of_walk? moving walked box fun earlier place reached => ?_
  have placeInBox : field.InBox place := by
    cases earlier with
    | zero =>
        cases reached
        exact inBox
    | succ earlier =>
        obtain ⟨middle, _, stepped⟩ := Option.bind_eq_some_iff.1 reached
        exact inBox_of_cell? (step?_straight_iff.1 stepped).2
  obtain ⟨left, right, top, bottom⟩ := placeInBox
  refine ⟨left, top, Finset.mem_sigma.2 ⟨Finset.mem_range.2 ?_, Finset.mem_range.2 ?_⟩⟩
  · dsimp only
    omega
  · dsimp only
    omega

end Field

/-- The state with its pointer in another place. -/
def placed (state : State Registers) (pointer : Pointer) : State Registers :=
  steer state fun _ => pointer

theorem ending_placed (state : State Registers) (place : Pointer) :
    (placed state place).ending = state.ending :=
  rfl

/-- Moves the pointer until the state is as wanted, at most this many cells. -/
def moveUntil (wrap : Bool) (wanted : State Registers → Bool) (state : State Registers) :
    Nat → State Registers
  | 0 => state
  | count + 1 =>
    let state := move wrap state
    if state.done || wanted state then state else moveUntil wrap wanted state count

/-- The pointer is on a semicolon. -/
def onSemicolon (wrap : Bool) (state : State Registers) : Bool :=
  state.registers.field.look? wrap state.registers.pointer == some semicolon

theorem onSemicolon_placed (wrap : Bool) (state : State Registers) (place : Pointer) :
    onSemicolon wrap (placed state place) =
      decide (state.registers.field.cell? place.x place.y = some semicolon) := by
  rw [Bool.eq_iff_iff, decide_eq_true_iff, ← Field.look?_eq_semicolon_iff]
  exact beq_iff_eq

section Moves

variable {wrap : Bool} {wanted : State Registers → Bool} {state final : State Registers}
  {last next : Pointer} {steps count : Nat}

theorem moveTimes_eq (wrap : Bool) (state : State Registers) (count : Nat) :
    moveTimes wrap state count = moveUntil wrap (fun _ => false) state count := by
  induction count generalizing state with
  | zero => rfl
  | succ count inductionHypothesis => simp only [moveTimes, moveUntil, Bool.or_false, inductionHypothesis]

theorem moveToSemicolon_eq (wrap : Bool) (state : State Registers) (count : Nat) :
    moveToSemicolon wrap state count = moveUntil wrap (onSemicolon wrap) state count := by
  induction count generalizing state with
  | zero => rfl
  | succ count inductionHypothesis =>
      simp only [moveToSemicolon, moveUntil, inductionHypothesis]
      rfl

theorem move_of_step? (state : State Registers)
    (stepped : state.registers.field.step? wrap state.registers.pointer = some next) :
    move wrap state = placed state next := by
  simp only [move, stepped, placed]

theorem move_of_stuck (state : State Registers)
    (stuck : state.registers.field.step? wrap state.registers.pointer = none) :
    move wrap state = state.halt (.leftGrid state.registers.pointer) := by
  simp only [move, stuck]

/-- The program has ended, or the state is as wanted. -/
def Stops (wanted : State Registers → Bool) (state : State Registers) : Prop :=
  (state.done || wanted state) = true

instance (wanted : State Registers → Bool) (state : State Registers) :
    Decidable (Stops wanted state) :=
  inferInstanceAs (Decidable (_ = true))

theorem moveUntil_of_stops (stops : Stops wanted (move wrap state)) (count : Nat) :
    moveUntil wrap wanted state (count + 1) = move wrap state := by
  rw [moveUntil]
  exact if_pos stops

theorem moveUntil_of_not_stops (onward : ¬ Stops wanted (move wrap state)) (count : Nat) :
    moveUntil wrap wanted state (count + 1) = moveUntil wrap wanted (move wrap state) count := by
  rw [moveUntil]
  exact if_neg onward

theorem stops_of_ended (ended : state.done) : Stops wanted (move wrap state) := by
  cases stepped : state.registers.field.step? wrap state.registers.pointer with
  | none =>
      rw [move_of_stuck state stepped]
      rfl
  | some next =>
      have kept : (placed state next).done = true := ended
      rw [move_of_step? state stepped, Stops, kept, Bool.true_or]

theorem moveUntil_of_ended (ended : state.done) (positive : 0 < count) :
    moveUntil wrap wanted state count = move wrap state := by
  obtain ⟨fewer, rfl⟩ := Nat.exists_eq_add_of_lt positive
  exact moveUntil_of_stops (stops_of_ended ended) _

/-- The pointer walks over some cells, at none of which the state is as wanted. -/
structure Passes (wrap : Bool) (wanted : State Registers → Bool) (state : State Registers)
    (steps : Nat) (last : Pointer) : Prop where
  walked : state.registers.field.walk? wrap state.registers.pointer steps = some last
  unwanted : ∀ earlier place, 0 < earlier → earlier ≤ steps →
    state.registers.field.walk? wrap state.registers.pointer earlier = some place →
      wanted (placed state place) = false

theorem Passes.start (wrap : Bool) (wanted : State Registers → Bool) (state : State Registers) :
    Passes wrap wanted state 0 state.registers.pointer where
  walked := rfl
  unwanted := by
    intro earlier place positive none
    omega

theorem Passes.extend (passes : Passes wrap wanted state steps last)
    (stepped : state.registers.field.step? wrap last = some next)
    (unwanted : wanted (placed state next) = false) : Passes wrap wanted state (steps + 1) next where
  walked := by rw [Field.walk?, passes.walked, Option.bind_some, stepped]
  unwanted := by
    intro earlier place positive ordered reached
    rcases Nat.lt_or_eq_of_le ordered with sooner | rfl
    · exact passes.unwanted earlier place positive (Nat.le_of_lt_succ sooner) reached
    · rw [Field.walk?, passes.walked, Option.bind_some, stepped, Option.some.injEq] at reached
      exact reached ▸ unwanted

theorem Passes.shorten (passes : Passes wrap wanted state (steps + 1) last) :
    ∃ middle, Passes wrap wanted state steps middle ∧
      state.registers.field.step? wrap middle = some last ∧ wanted (placed state last) = false := by
  obtain ⟨middle, walked, stepped⟩ := Option.bind_eq_some_iff.1 passes.walked
  refine ⟨middle, ⟨walked, ?_⟩, stepped, ?_⟩
  · intro earlier place positive ordered
    exact passes.unwanted earlier place positive (Nat.le_succ_of_le ordered)
  · exact passes.unwanted (steps + 1) last (Nat.succ_pos steps) (Nat.le_refl _) passes.walked

theorem not_stops_of_step? (running : state.ending = none)
    (stepped : state.registers.field.step? wrap last = some next)
    (unwanted : wanted (placed state next) = false) :
    move wrap (placed state last) = placed state next ∧
      ¬ Stops wanted (move wrap (placed state last)) := by
  have moved : move wrap (placed state last) = placed state next :=
    move_of_step? (placed state last) stepped
  have going : (placed state next).done = false := by simp [State.done, ending_placed, running]
  rw [moved]
  exact ⟨rfl, by simp [Stops, going, unwanted]⟩

/-- The moves over cells that are passed come first. -/
theorem Passes.moveUntil_add (passes : Passes wrap wanted state steps last)
    (running : state.ending = none) (count : Nat) :
    moveUntil wrap wanted state (steps + count) = moveUntil wrap wanted (placed state last) count := by
  induction steps generalizing last count with
  | zero =>
      cases passes.walked
      rw [Nat.zero_add]
      rfl
  | succ steps inductionHypothesis =>
      obtain ⟨middle, before, stepped, unwanted⟩ := passes.shorten
      obtain ⟨moved, onward⟩ := not_stops_of_step? running stepped unwanted
      rw [Nat.add_assoc, Nat.add_comm 1, inductionHypothesis before, moveUntil_of_not_stops onward, moved]

theorem Passes.moveUntil_eq (passes : Passes wrap wanted state count last)
    (running : state.ending = none) : moveUntil wrap wanted state count = placed state last :=
  passes.moveUntil_add running 0

theorem Passes.moveUntil_of_stops (passes : Passes wrap wanted state steps last)
    (running : state.ending = none) (stops : Stops wanted (move wrap (placed state last)))
    (within : steps < count) :
    moveUntil wrap wanted state count = move wrap (placed state last) := by
  obtain ⟨rest, rfl⟩ := Nat.exists_eq_add_of_lt within
  rw [Nat.add_assoc, passes.moveUntil_add running, Befunge.moveUntil_of_stops stops]

/-- Either all cells within a number of moves are passed, or some are and the next move stops. -/
theorem passes_or_stops (wrap : Bool) (wanted : State Registers → Bool) (state : State Registers)
    (count : Nat) :
    (∃ last, Passes wrap wanted state count last) ∨
      ∃ steps last, steps < count ∧ Passes wrap wanted state steps last ∧
        Stops wanted (move wrap (placed state last)) := by
  induction count with
  | zero => exact .inl ⟨_, .start wrap wanted state⟩
  | succ count inductionHypothesis =>
      rcases inductionHypothesis with ⟨last, passes⟩ | ⟨steps, last, within, passes, stops⟩
      · by_cases stops : Stops wanted (move wrap (placed state last))
        · exact .inr ⟨count, last, Nat.lt_succ_self count, passes, stops⟩
        · cases stepped : state.registers.field.step? wrap last with
          | none =>
              rw [move_of_stuck (placed state last) stepped] at stops
              exact (stops rfl).elim
          | some next =>
              refine .inl ⟨next, passes.extend stepped ?_⟩
              rw [move_of_step? (placed state last) stepped] at stops
              simp only [Stops, Bool.or_eq_true, not_or, Bool.not_eq_true] at stops
              exact stops.2
      · exact .inr ⟨steps, last, Nat.lt_succ_of_lt within, passes, stops⟩

/-- Moving on without a limit, until the program ends or the pointer is on a semicolon. -/
inductive SkipsTo (wrap : Bool) : State Registers → State Registers → Prop where
  | stops {state : State Registers} (stops : Stops (onSemicolon wrap) (move wrap state)) :
      SkipsTo wrap state (move wrap state)
  | goesOn {state final : State Registers} (onward : ¬ Stops (onSemicolon wrap) (move wrap state))
      (rest : SkipsTo wrap (move wrap state) final) : SkipsTo wrap state final

theorem SkipsTo.unique {other : State Registers} (first : SkipsTo wrap state final)
    (second : SkipsTo wrap state other) : final = other := by
  induction first generalizing other with
  | stops stops =>
      cases second with
      | stops => rfl
      | goesOn onward => exact (onward stops).elim
  | goesOn onward _ inductionHypothesis =>
      cases second with
      | stops stops => exact (onward stops).elim
      | goesOn _ rest => exact inductionHypothesis rest

theorem Passes.skipsTo (passes : Passes wrap (onSemicolon wrap) state steps last)
    (running : state.ending = none) (rest : SkipsTo wrap (placed state last) final) :
    SkipsTo wrap state final := by
  induction steps generalizing last with
  | zero =>
      cases passes.walked
      exact rest
  | succ steps inductionHypothesis =>
      obtain ⟨middle, before, stepped, unwanted⟩ := passes.shorten
      obtain ⟨moved, onward⟩ := not_stops_of_step? running stepped unwanted
      exact inductionHypothesis before (.goesOn onward (moved ▸ rest))

theorem Passes.take (passes : Passes wrap wanted state steps last) {fewer : Nat}
    (ordered : fewer ≤ steps) : ∃ place, Passes wrap wanted state fewer place := by
  obtain ⟨place, walked⟩ := Option.isSome_iff_exists.1
    (Field.walk?_isSome_of_le (Option.isSome_iff_exists.2 ⟨last, passes.walked⟩) ordered)
  refine ⟨place, walked, fun earlier place positive sooner => ?_⟩
  exact passes.unwanted earlier place positive (Nat.le_trans sooner ordered)

end Moves

section Straight

variable {state : State Registers}

/-- Moves the pointer as many cells ahead as a number says, or back for a negative one, unless the
program ends before. -/
def leap (wrap : Bool) (state : State Registers) (count : Word) : State Registers :=
  if count < 0 then steer (moveTimes wrap (steer state .reflect) count.toInt.natAbs) .reflect
  else moveTimes wrap state count.toInt.natAbs

/-- A pointer that stands still needs one move to show whether it can stay where it is. -/
theorem moveTimes_of_still
    (still : state.registers.pointer.dx = 0 ∧ state.registers.pointer.dy = 0) {count : Nat}
    (positive : 0 < count) : moveTimes false state count = move false state := by
  induction count, positive using Nat.le_induction with
  | base => simp [moveTimes]
  | succ count _ inductionHypothesis =>
      cases stepped : state.registers.field.step? false state.registers.pointer with
      | none =>
          rw [moveTimes, move_of_stuck state stepped]
          rfl
      | some next =>
          have once : state.registers.field.walk? false state.registers.pointer 1 = some next := stepped
          have stays : next = state.registers.pointer := Field.walk?_of_still still once
          have moved : move false state = state := by
            rw [move_of_step? state stepped, stays]
            rfl
          rw [moveTimes, moved, inductionHypothesis, moved, ite_self]

/-- Without a way around, moves in excess of the places in the box make no difference. -/
theorem moveTimes_min_boxSize (inBox : state.registers.field.InBox state.registers.pointer)
    (count : Nat) :
    moveTimes false state (min count state.registers.field.boxSize) = moveTimes false state count := by
  have room : 0 < state.registers.field.boxSize := Nat.mul_pos inBox.height_pos (by omega)
  rcases Nat.le_total count state.registers.field.boxSize with fits | exceeds
  · rw [Nat.min_eq_left fits]
  rw [Nat.min_eq_right exceeds]
  by_cases still : state.registers.pointer.dx = 0 ∧ state.registers.pointer.dy = 0
  · rw [moveTimes_of_still still room, moveTimes_of_still still (room.trans_le exceeds)]
  rw [moveTimes_eq, moveTimes_eq]
  by_cases ended : state.done
  · rw [moveUntil_of_ended ended room, moveUntil_of_ended ended (room.trans_le exceeds)]
  have running : state.ending = none := by simpa [State.done] using ended
  rcases passes_or_stops false (fun _ => false) state state.registers.field.boxSize with
    ⟨last, passes⟩ | ⟨steps, last, within, passes, stops⟩
  · -- So long a walk would have come to some place of the box twice.
    have fits := Field.lt_boxSize_of_walk? inBox (by tauto) passes.walked
    exact (Nat.lt_irrefl _ fits).elim
  · rw [passes.moveUntil_of_stops running stops within,
      passes.moveUntil_of_stops running stops (within.trans_le exceeds)]

theorem jump_eq_leap (inBox : state.registers.field.InBox state.registers.pointer) (count : Word) :
    jump false state count = leap false state count := by
  have reflected : (steer state .reflect).registers.field.InBox
      (steer state .reflect).registers.pointer :=
    ⟨inBox.left, inBox.right, inBox.top, inBox.bottom⟩
  have forth := moveTimes_min_boxSize inBox count.toInt.natAbs
  have back := moveTimes_min_boxSize reflected count.toInt.natAbs
  unfold Field.boxSize at forth back
  simp only [jump, leap, forth]
  split
  · rw [← back]
    rfl
  · rfl

/-- Without a way around, a comment ends within as many moves as the field has cells. -/
theorem skipsTo_moveToSemicolon
    (here : state.registers.field.cell? state.registers.pointer.x state.registers.pointer.y =
      some semicolon) :
    SkipsTo false state (moveToSemicolon false state (state.registers.field.area + 1)) := by
  rw [moveToSemicolon_eq]
  by_cases ended : state.done
  · rw [moveUntil_of_ended ended (Nat.succ_pos _)]
    exact .stops (stops_of_ended ended)
  · have running : state.ending = none := by simpa [State.done] using ended
    have there : (state.registers.field.cell? state.registers.pointer.x
        state.registers.pointer.y).isSome := Option.isSome_iff_exists.2 ⟨_, here⟩
    rcases passes_or_stops false (onSemicolon false) state (state.registers.field.area + 1) with
      ⟨last, passes⟩ | ⟨steps, last, within, passes, stops⟩
    · exfalso
      by_cases still : state.registers.pointer.dx = 0 ∧ state.registers.pointer.dy = 0
      · -- The pointer has not left the semicolon that it started from.
        have first : 1 ≤ state.registers.field.area + 1 := Nat.le_add_left _ _
        obtain ⟨place, once⟩ := passes.take first
        have unwanted := once.unwanted 1 place Nat.one_pos (Nat.le_refl 1) once.walked
        rw [Field.walk?_of_still still once.walked, onSemicolon_placed] at unwanted
        exact of_decide_eq_false unwanted here
      · have fits := Field.lt_area_of_walk? there (by tauto) passes.walked
        omega
    · rw [passes.moveUntil_of_stops running stops within]
      exact passes.skipsTo running (.stops stops)

/-- Without a way around, the pointer is in the box all the same. -/
theorem inBox_of_visits {options : Options} {field : Field} {dice : Dice} {input : String}
    {cycles : Nat} (straight : options.wrap = false) (rows : 0 < field.height)
    (visited : (machine options field dice).Visits ((machine options field dice).initial input) cycles
      state) : state.registers.field.InBox state.registers.pointer := by
  refine visited.invariant (fun state => state.registers.field.InBox state.registers.pointer)
    (Field.inBox_corner rows) ?_
  intro state _ inBox
  cases decoded : decode options state with
  | none =>
      simp only [Machine.step, show (machine options field dice).decode state = none from decoded]
      exact inBox
  | some op =>
      have leads := step_leads field dice decoded
      rw [straight] at leads
      exact Field.inBox_of_cell? (leads.onCell (cell?_of_decode straight decoded))

theorem height_pos_of_decode {options : Options} {op : Op} (straight : options.wrap = false)
    (decoded : decode options state = some op) : 0 < state.registers.field.height :=
  (Field.inBox_of_cell? (cell?_of_decode straight decoded)).height_pos

/-- Without a row there is no instruction, and so never a value on the stack. -/
theorem stack_of_visits_empty {options : Options} {field : Field} {dice : Dice} {input : String}
    {cycles : Nat} (straight : options.wrap = false) (noRows : field.height = 0)
    (visited : (machine options field dice).Visits ((machine options field dice).initial input) cycles
      state) : state.stack = .empty := by
  refine (visited.invariant (fun state => state.registers.field.height = 0 ∧ state.stack = .empty)
    ⟨noRows, rfl⟩ ?_).2
  rintro state _ ⟨noRows, nothing⟩
  cases decoded : decode options state with
  | none =>
      simp only [Machine.step, show (machine options field dice).decode state = none from decoded]
      exact ⟨noRows, nothing⟩
  | some op =>
      have rows := height_pos_of_decode straight decoded
      omega

end Straight

/-- Without a way around, the limits of long moves are never seen, whatever step the pointer takes. A jump
ends as one over the whole number of cells does, and on a field with a row in it, and so wherever there is
an instruction, also with any other number on the stack. Its limit grows no further than rows can. From a
semicolon, a comment is skipped as it is without a limit. -/
theorem move_limits_never_show (options : Options) (straight : options.wrap = false) (field : Field)
    (input : String) (dice : Dice) :
    let machine := machine options field dice
    ∀ cycles state, machine.Visits (machine.initial input) cycles state → ∀ dx dy : Word,
      let turned := steer state fun pointer => { pointer with dx, dy }
      execute options .jumpForward turned = ⟨leap false turned.pop.2 turned.pop.1, none⟩ ∧
      (0 < field.height → ∀ stack : Stack,
        execute options .jumpForward { turned with stack } =
          ⟨leap false { turned with stack := stack.pop.2 } stack.pop.1, none⟩) ∧
      ((machine.decode state).isSome → 0 < field.height) ∧
      state.registers.field.boxSize ≤ field.height * max field.widest Field.widthLimit ∧
      (turned.registers.field.cell? turned.registers.pointer.x turned.registers.pointer.y =
          some semicolon →
        ∀ final, SkipsTo false turned final ↔ execute options .skipComment turned = ⟨final, none⟩) := by
  intro machine cycles state visited dx dy turned
  have widened : field.Widened state.registers.field := widened_of_visits visited
  have jumps (rows : 0 < field.height) (stack : Stack) :
      execute options .jumpForward { turned with stack } =
        ⟨leap false { turned with stack := stack.pop.2 } stack.pop.1, none⟩ := by
    obtain ⟨left, right, top, bottom⟩ := inBox_of_visits straight rows visited
    let popped : State Registers := { turned with stack := stack.pop.2 }
    have inBox : popped.registers.field.InBox popped.registers.pointer := ⟨left, right, top, bottom⟩
    have jumped := jump_eq_leap inBox stack.pop.1
    rw [← jumped]
    simp only [execute, straight]
    rfl
  refine ⟨?_, jumps, ?_, widened.boxSize_le, ?_⟩
  · rcases Nat.eq_zero_or_pos field.height with noRows | rows
    · -- There is nothing on the stack, so that the jump is over no cell.
      have nothing : state.stack = .empty := stack_of_visits_empty straight noRows visited
      have still : turned.pop.1 = 0 := congrArg (fun stack : Stack => stack.pop.1) nothing
      simp only [execute, straight, still]
      rfl
    · exact jumps rows turned.stack
  · intro found
    obtain ⟨op, decoded⟩ := Option.isSome_iff_exists.1 found
    exact widened.height ▸ height_pos_of_decode straight decoded
  · intro here final
    have skips := skipsTo_moveToSemicolon here
    simp only [execute, straight, Outcome.mk.injEq, and_true]
    constructor
    · exact skips.unique
    · rintro rfl
      exact skips

/-- A jump by nine cells on a row of three, and a comment that is never closed. -/
theorem move_limits_never_show_at_edge :
    let options : Options := { dialect := .befunge98 }
    let jumping := machine options (.ofSource "9j@")
    let skipping := machine options (.ofSource ";ab")
    let start := skipping.initial ""
    let edge : Pointer := { x := 2 }
    (∃ state, jumping.after? 1 (jumping.initial "") = some state ∧
      jumping.decode state = some .jumpForward ∧ state.pop.1 = 9 ∧
      state.registers.field.boxSize = 3 ∧
      execute options .jumpForward state = ⟨leap false state.pop.2 state.pop.1, none⟩) ∧
    skipping.decode start = some .skipComment ∧
      SkipsTo false start ((placed start edge).halt (.leftGrid edge)) := by
  intro options jumping skipping start edge
  constructor
  · have pushed : (jumping.after? 1 (jumping.initial "")).map (fun state =>
        (jumping.decode state, state.pop.1, state.registers.field.boxSize)) =
          some (some .jumpForward, 9, 3) := by decide +kernel
    obtain ⟨state, reached, seen⟩ := Option.map_eq_some_iff.1 pushed
    simp only [Prod.mk.injEq] at seen
    have jumps := move_limits_never_show options rfl (.ofSource "9j@") "" (.ofSeed none) 1 state
      (.reached (Machine.reaches_of_after? rfl reached)) state.registers.pointer.dx
      state.registers.pointer.dy
    exact ⟨state, reached, seen.1, seen.2.1, seen.2.2, jumps.1⟩
  · have skips := move_limits_never_show options rfl (.ofSource ";ab") "" (.ofSeed none) 0 start
      (.reached .start) 1 0
    exact ⟨by decide, (skips.2.2.2.2 (by decide) _).2 (by decide)⟩

end Esoterica.Befunge
