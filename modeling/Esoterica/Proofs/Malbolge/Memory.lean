import Mathlib.Algebra.Group.Nat.Defs
import Esoterica.Malbolge.Machine

/-!
What stands in the memory: words of ten trits, which every operation on them gives again, first those of
the program and behind them those that fill the rest.
-/

namespace Esoterica.Malbolge

/-- A number that ten trits can hold. -/
def IsWord (value : Int) : Prop :=
  0 ≤ value ∧ value ≤ greatestWord

/-- A memory whose every cell holds such a number. -/
def AllWords (memory : Memory) : Prop :=
  ∀ (address : Nat) (value : Int), memory[address]? = some value → IsWord value

theorem crazyTrit_lt (d a : Nat) : crazyTrit d a < 3 := by
  fun_cases crazyTrit d a <;> decide

/-- As many trits come out as go in. -/
theorem crazyTrits_lt (count d a : Nat) : crazyTrits count d a < 3 ^ count := by
  induction count generalizing d a with
  | zero => exact Nat.one_pos
  | succ count inductionHypothesis =>
      have trit := crazyTrit_lt (d % 3) (a % 3)
      have rest := inductionHypothesis (d / 3) (a / 3)
      simp only [crazyTrits, Nat.pow_succ]
      omega

theorem isWord_crazy (d a : Int) : IsWord (crazy d a) := by
  have below := crazyTrits_lt 10 (reduce d) (reduce a)
  unfold IsWord greatestWord crazy
  omega

theorem isWord_rotate (value : Int) : IsWord (rotate value) := by
  have below : reduce value < 59049 := reduce_lt value
  unfold IsWord greatestWord rotate
  simp only
  omega

/-- The cipher replaces everything by printable characters. -/
theorem encrypt_printable (value : Int) : 33 ≤ encrypt value ∧ encrypt value ≤ 126 := by
  have codes : ∀ code ∈ cipherCodes, 33 ≤ code ∧ code ≤ 126 := by decide +kernel
  unfold encrypt
  cases found : cipherCodes[((value - 33) % 94).toNat]? with
  | none => decide
  | some code => exact codes code (Array.mem_of_getElem? found)

theorem isWord_of_printable {value : Int} (printable : 33 ≤ value ∧ value ≤ 126) : IsWord value := by
  unfold IsWord greatestWord
  omega

theorem AllWords.set {memory : Memory} {value : Int} (allWords : AllWords memory)
    (word : IsWord value) (address : Nat) : AllWords (memory.setIfInBounds address value) := by
  intro other found there
  rw [Vector.getElem?_setIfInBounds] at there
  split at there
  · split at there
    · cases there
      exact word
    · cases there
  · exact allWords other found there

section Image

variable {cells : Array Int} {index : Nat}

/-- Filling the memory leaves the cells of the program as they are. -/
theorem getElem?_fill (inside : index < cells.size) (count : Nat) :
    (fill cells count)[index]? = cells[index]? := by
  induction count generalizing cells with
  | zero => rfl
  | succ count inductionHypothesis =>
      rw [fill, inductionHypothesis (by rw [Array.size_push]; omega),
        Array.getElem?_push_lt inside, Array.getElem?_eq_getElem inside]

theorem isWord_of_mem_fill (words : ∀ value ∈ cells, IsWord value) (count : Nat) :
    ∀ value ∈ fill cells count, IsWord value := by
  induction count generalizing cells with
  | zero => exact words
  | succ count inductionHypothesis =>
      refine inductionHypothesis fun value member => ?_
      rcases Array.mem_push.1 member with earlier | rfl
      · exact words value earlier
      · exact isWord_crazy _ _

theorem getElem?_image (inside : index < cells.size) (fits : index < memorySize) :
    (image cells)[index]? = cells[index]? := by
  simp only [image, Vector.getElem?_ofFn, fits, dif_pos, getElem?_fill inside,
    Array.getElem?_eq_getElem inside, Option.getD_some]

theorem allWords_image (words : ∀ value ∈ cells, IsWord value) : AllWords (image cells) := by
  intro address value there
  simp only [image, Vector.getElem?_ofFn] at there
  split at there
  · cases there
    cases found : (fill cells (memorySize - cells.size))[address]? with
    | none => exact ⟨Int.le_refl 0, by decide⟩
    | some value => exact isWord_of_mem_fill words _ value (Array.mem_of_getElem? found)
  · cases there

end Image

end Esoterica.Malbolge
