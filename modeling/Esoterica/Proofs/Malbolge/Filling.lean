import Mathlib.Logic.Function.Conjugate
import Esoterica.Proofs.Malbolge.Loader
import Esoterica.Proofs.Malbolge.Trits

/-!
The cells behind a program. Each of them combines the two cells before it, and the table does so at every
place by itself. Whatever two trits stand before, the trits that follow come back after six steps, and so
do the cells.
-/

namespace Esoterica.Malbolge

/-- The cell some cells before an address, zero before the first cell. -/
def before (cells : Array Int) (address distance : Nat) : Int :=
  if distance ≤ address then (cells[address - distance]?).getD 0 else 0

/-- From an address on, each cell is the crazy combination of the two before it. -/
def FilledFrom (cells : Array Int) (start : Nat) : Prop :=
  ∀ address, start ≤ address → address < cells.size →
    cells[address]? = some (crazy (before cells address 2) (before cells address 1))

/-- The two cells before an address. -/
def pairBefore (cells : Array Int) (address : Nat) : Int × Int :=
  (before cells address 2, before cells address 1)

/-- The pair one cell further on. -/
def crazyPair (pair : Int × Int) : Int × Int :=
  (pair.2, crazy pair.1 pair.2)

/-- The pair of trits one cell further on. -/
def crazyTritPair (pair : Fin 3 × Fin 3) : Fin 3 × Fin 3 :=
  (pair.2, crazyTable[pair.1][pair.2])

/-- The trits of a pair at a place. -/
def tritPair (place : Nat) (pair : Int × Int) : Fin 3 × Fin 3 :=
  (trit (pair.1 % memorySize) place, trit (pair.2 % memorySize) place)

section Period

variable {place : Nat}

theorem tritPair_semiconj (below : place < 10) :
    Function.Semiconj (tritPair place) crazyPair crazyTritPair := by
  intro pair
  have word := isWord_crazy pair.1 pair.2
  simp only [tritPair, crazyPair, crazyTritPair, mod_of_isWord word, trit_crazy below]

/-- Whatever two trits there are, those that follow come back after six steps. -/
theorem crazyTritPair_repeats (pair : Fin 3 × Fin 3) :
    (crazyTritPair^[7] pair).2 = (crazyTritPair pair).2 := by
  obtain ⟨first, second⟩ := pair
  revert first second
  decide

theorem crazyPair_repeats (pair : Int × Int) : (crazyPair^[7] pair).2 = (crazyPair pair).2 := by
  have word (pair : Int × Int) : IsWord (crazyPair pair).2 := isWord_crazy _ _
  have later : IsWord (crazyPair^[7] pair).2 := by
    rw [Function.iterate_succ_apply']
    exact word _
  refine eq_of_trits later (word pair) fun place below => ?_
  have semiconj := tritPair_semiconj below
  have trits : (tritPair place (crazyPair^[7] pair)).2 = (tritPair place (crazyPair pair)).2 := by
    rw [(semiconj.iterate_right 7).eq, semiconj.eq, crazyTritPair_repeats]
  simpa only [tritPair, mod_of_isWord later, mod_of_isWord (word pair)] using trits

end Period

section Fill

variable {cells : Array Int} {start address : Nat}

theorem size_fill (cells : Array Int) (count : Nat) : (fill cells count).size = cells.size + count := by
  induction count generalizing cells with
  | zero => rfl
  | succ count inductionHypothesis =>
      rw [fill, inductionHypothesis, Array.size_push]
      omega

theorem previous_eq_before (cells : Array Int) (distance : Nat) :
    previous cells distance = before cells cells.size distance :=
  rfl

theorem before_push {distance : Nat} (within : address ≤ cells.size) (positive : 0 < distance)
    (value : Int) : before (cells.push value) address distance = before cells address distance := by
  unfold before
  split
  · rw [Array.getElem?_push_lt (by omega), Array.getElem?_eq_getElem (by omega)]
  · rfl

/-- One more cell is combined as those before it. -/
theorem FilledFrom.push (filled : FilledFrom cells start) :
    FilledFrom (cells.push (crazy (previous cells 2) (previous cells 1))) start := by
  intro address behind within
  rw [Array.size_push] at within
  rw [before_push (by omega) (by decide), before_push (by omega) (by decide)]
  rcases Nat.lt_or_eq_of_le (Nat.le_of_lt_succ within) with earlier | rfl
  · rw [← filled address behind earlier, Array.getElem?_push_lt earlier,
      Array.getElem?_eq_getElem earlier]
  · rw [Array.getElem?_push_size, previous_eq_before, previous_eq_before]

theorem FilledFrom.fill (filled : FilledFrom cells start) (count : Nat) :
    FilledFrom (fill cells count) start := by
  induction count generalizing cells with
  | zero => exact filled
  | succ count inductionHypothesis => exact inductionHypothesis filled.push

theorem FilledFrom.pairBefore_succ (filled : FilledFrom cells start) (behind : start ≤ address)
    (within : address < cells.size) :
    pairBefore cells (address + 1) = crazyPair (pairBefore cells address) := by
  have first : before cells (address + 1) 2 = before cells address 1 := by
    simp only [before, Nat.reduceLeDiff]
    rfl
  have second : before cells (address + 1) 1 =
      crazy (before cells address 2) (before cells address 1) := by
    rw [before, if_pos (by omega), Nat.add_sub_cancel, filled address behind within, Option.getD_some]
  rw [pairBefore, first, second]
  rfl

/-- From an address behind the program the pairs follow each other. -/
theorem FilledFrom.pairBefore_add (filled : FilledFrom cells start) (behind : start ≤ address)
    (count : Nat) (within : address + count ≤ cells.size) :
    pairBefore cells (address + count) = crazyPair^[count] (pairBefore cells address) := by
  induction count with
  | zero => rfl
  | succ count inductionHypothesis =>
      rw [Function.iterate_succ_apply', ← inductionHypothesis (by omega)]
      exact filled.pairBefore_succ (Nat.le_add_right_of_le behind) within

theorem FilledFrom.repeats (filled : FilledFrom cells start) (behind : start ≤ address)
    (within : address + 6 < cells.size) : cells[address + 6]? = cells[address]? := by
  have one := filled.pairBefore_add behind 1 (by omega)
  have seven := filled.pairBefore_add behind 7 within
  have found (index : Nat) (inside : index < cells.size) :
      cells[index]? = some (pairBefore cells (index + 1)).2 := by
    simp [pairBefore, before, inside]
  rw [found _ within, found address (by omega), seven, one, crazyPair_repeats]
  rfl

/-- A program that has room leaves the rest of the memory, and no more, to be filled. -/
theorem toArray_image (room : cells.size ≤ memorySize) :
    (image cells).toArray = fill cells (memorySize - cells.size) := by
  have size := size_fill cells (memorySize - cells.size)
  apply Array.ext
  · rw [Vector.size_toArray]
    omega
  · intro index inside insideToo
    simp [image, insideToo]

theorem filledFrom_image (room : cells.size ≤ memorySize) :
    FilledFrom (image cells).toArray cells.size := by
  have nothingYet : FilledFrom cells cells.size := by
    intro address behind within
    omega
  rw [toArray_image room]
  exact nothingYet.fill _

end Fill

/-- What stands in the memory of a program. The text fills its first cells and the crazy operation all
the others, which repeat themselves after six cells. -/
theorem filling_repeats (options : Options) (source : String) (program : Program)
    (loads : Program.load options source = .ok program) :
    let cells := program.image.toArray
    cells.size = memorySize ∧ program.loaded = (letters source).length ∧
      program.loaded ≤ memorySize ∧
      (∀ (index : Nat) (c : Char), (letters source)[index]? = some c →
        cells[index]? = some (c.toNat : Int)) ∧
      (∀ address, program.loaded ≤ address → address < memorySize →
        cells[address]? = some (crazy (before cells address 2) (before cells address 1))) ∧
      ∀ address, program.loaded ≤ address → address + 6 < memorySize →
        cells[address + 6]? = cells[address]? := by
  intro cells
  obtain ⟨_, fit, rfl⟩ := load_eq_ok_iff.1 loads
  have size : cells.size = memorySize := Vector.size_toArray _
  have filled : FilledFrom cells (letters source).length := by
    have codes : ((letters source).map fun c => (c.toNat : Int)).toArray.size =
        (letters source).length := by simp
    have filled := filledFrom_image (codes ▸ fit.length_le)
    rwa [codes] at filled
  refine ⟨size, rfl, fit.length_le, fun index c there => ?_, fun address behind within => ?_,
    fun address behind within => ?_⟩
  · show (programOf (letters source)).image.toArray[index]? = _
    rw [Vector.getElem?_toArray, getElem?_programOf fit there]
  · exact filled address behind (size ▸ within)
  · exact filled.repeats behind (size ▸ within)

/-- Behind the program that only halts, down to the last cell of the memory. -/
theorem filling_repeats_halt :
    ∃ program, Program.load {} "Q" = .ok program ∧ program.loaded = 1 ∧
      (letters "Q")[0]? = some 'Q' ∧ program.image.toArray[0]? = some 81 ∧
      program.image.toArray[1]? = some (crazy 0 81) ∧
      program.image.toArray[59048]? = program.image.toArray[59042]? := by
  have cells : loadCells 0 (letters "Q") = .ok [81] := rfl
  obtain ⟨program, loads⟩ : ∃ program, Program.load {} "Q" = .ok program :=
    ⟨_, load_eq_ok_iff.2 ⟨by decide, (loadCells_eq_ok_iff.1 cells).1, rfl⟩⟩
  obtain ⟨_, loaded, _, text, combined, repeats⟩ := filling_repeats {} "Q" program loads
  have one : program.loaded = 1 := loaded
  have first : program.image.toArray[0]? = some 81 := text 0 'Q' rfl
  have second : program.image.toArray[1]? = some (crazy 0 81) := by
    rw [combined 1 (by omega) (by decide)]
    simp only [before, first, Nat.reduceLeDiff, Nat.le_refl, Nat.sub_self, if_true, if_false,
      Option.getD_some]
  exact ⟨program, loads, one, rfl, first, second, repeats 59042 (by omega) (by decide)⟩

end Esoterica.Malbolge
