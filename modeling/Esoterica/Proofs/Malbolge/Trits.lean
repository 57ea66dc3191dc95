import Mathlib.Logic.Function.Iterate
import Esoterica.Proofs.Malbolge.Memory

/-!
The trits of words. The crazy operation goes through one table at every place, and a turn moves each
trit to the place below it, the lowest one to the top. So ten turns lead back to the same word, and no two
words become one by a turn.
-/

namespace Esoterica.Malbolge

/-- The trit at a place of a number; the lowest trit has place zero. -/
def trit (value : Int) (place : Nat) : Fin 3 :=
  Fin.ofNat 3 (value.toNat / 3 ^ place)

/-- The crazy operation on single trits, with a row for each trit in memory and in it a column for each
trit of the accumulator. -/
def crazyTable : Vector (Vector (Fin 3) 3) 3 :=
  #v[#v[1, 0, 0], #v[1, 0, 2], #v[2, 2, 1]]

section Places

variable {value other : Int} {place : Nat}

theorem mod_of_isWord (word : IsWord value) : value % memorySize = value := by
  obtain ⟨lower, upper⟩ := word
  unfold greatestWord at upper
  unfold memorySize
  omega

theorem isWord_mod (value : Int) : IsWord (value % memorySize) := by
  unfold IsWord greatestWord memorySize
  omega

/-- Numbers with as many places are equal if they are at every place. -/
theorem eq_of_places {count first second : Nat} (few : first < 3 ^ count) (fewToo : second < 3 ^ count)
    (same : ∀ place < count, first / 3 ^ place % 3 = second / 3 ^ place % 3) : first = second := by
  induction count generalizing first second with
  | zero => omega
  | succ count inductionHypothesis =>
      rw [Nat.pow_succ] at few fewToo
      have lowest : first % 3 = second % 3 := by simpa using same 0 (by omega)
      have others : first / 3 = second / 3 := by
        refine inductionHypothesis (by omega) (by omega) fun place below => ?_
        have next := same (place + 1) (by omega)
        rwa [Nat.pow_succ', ← Nat.div_div_eq_div_mul, ← Nat.div_div_eq_div_mul] at next
      omega

/-- A word is what its ten trits are. -/
theorem eq_of_trits (word : IsWord value) (wordToo : IsWord other)
    (same : ∀ place < 10, trit value place = trit other place) : value = other := by
  obtain ⟨lower, upper⟩ := word
  obtain ⟨lowerToo, upperToo⟩ := wordToo
  unfold greatestWord at upper upperToo
  have few : value.toNat < 3 ^ 10 := by omega
  have fewToo : other.toNat < 3 ^ 10 := by omega
  have equal : value.toNat = other.toNat :=
    eq_of_places few fewToo fun place below => congrArg Fin.val (same place below)
  omega

end Places

section Crazy

variable {place : Nat}

theorem crazyTrit_eq_crazyTable (d a : Fin 3) : crazyTrit d a = crazyTable[d][a].val := by
  revert d a
  decide

/-- Each place of the result comes from the same place of both words. -/
theorem crazyTrits_place {count : Nat} (below : place < count) (d a : Nat) :
    crazyTrits count d a / 3 ^ place % 3 = crazyTrit (d / 3 ^ place % 3) (a / 3 ^ place % 3) := by
  induction place generalizing count d a with
  | zero =>
      obtain ⟨count, rfl⟩ := Nat.exists_eq_add_one.2 below
      have small := crazyTrit_lt (d % 3) (a % 3)
      simp only [crazyTrits, Nat.pow_zero, Nat.div_one]
      omega
  | succ place inductionHypothesis =>
      obtain ⟨count, rfl⟩ := Nat.exists_eq_add_one.2 (Nat.zero_lt_of_lt below)
      have small := crazyTrit_lt (d % 3) (a % 3)
      have shifted : crazyTrits (count + 1) d a / 3 = crazyTrits count (d / 3) (a / 3) := by
        simp only [crazyTrits]
        omega
      rw [Nat.pow_succ', ← Nat.div_div_eq_div_mul, ← Nat.div_div_eq_div_mul,
        ← Nat.div_div_eq_div_mul, shifted, inductionHypothesis (by omega)]

theorem trit_crazy (below : place < 10) (d a : Int) :
    trit (crazy d a) place =
      crazyTable[trit (d % memorySize) place][trit (a % memorySize) place] := by
  apply Fin.ext
  rw [← crazyTrit_eq_crazyTable]
  exact crazyTrits_place below (reduce d) (reduce a)

end Crazy

section Rotate

variable {place : Nat}

theorem rotate_place {word : Nat} (few : word < 3 ^ 10) (below : place < 10) :
    (word / 3 + word % 3 * 3 ^ 9) / 3 ^ place % 3 = word / 3 ^ ((place + 1) % 10) % 3 := by
  rcases Nat.lt_or_eq_of_le (Nat.le_of_lt_succ below) with inner | rfl
  · -- What comes to stand at the top is a multiple of three at every lower place.
    obtain ⟨above, split⟩ := Nat.exists_eq_add_of_lt inner
    have top : word % 3 * 3 ^ 9 = word % 3 * 3 ^ above * 3 * 3 ^ place := by
      rw [split, Nat.pow_succ, Nat.pow_add]
      ac_rfl
    rw [top, Nat.add_mul_div_right _ _ (Nat.pow_pos (by decide)), Nat.add_mul_mod_self_right,
      Nat.div_div_eq_div_mul, ← Nat.pow_succ', Nat.mod_eq_of_lt (by omega : place + 1 < 10)]
  · rw [Nat.add_mul_div_right _ _ (Nat.pow_pos (by decide)), Nat.div_eq_of_lt (by omega),
      Nat.zero_add, Nat.mod_mod, Nat.mod_self, Nat.pow_zero, Nat.div_one]

theorem trit_rotate (below : place < 10) (value : Int) :
    trit (rotate value) place = trit (value % memorySize) ((place + 1) % 10) := by
  apply Fin.ext
  exact rotate_place (reduce_lt value) below

theorem rotate_mod (value : Int) : rotate (value % memorySize) = rotate value := by
  simp only [rotate, reduce, Int.emod_emod]

theorem isWord_iterate_rotate {value : Int} (word : IsWord value) (turns : Nat) :
    IsWord (rotate^[turns] value) := by
  cases turns with
  | zero => exact word
  | succ turns =>
      rw [Function.iterate_succ_apply']
      exact isWord_rotate _

theorem trit_iterate_rotate {value : Int} (word : IsWord value) (below : place < 10) (turns : Nat) :
    trit (rotate^[turns] value) place = trit value ((place + turns) % 10) := by
  induction turns generalizing place with
  | zero => rw [Function.iterate_zero_apply, Nat.add_zero, Nat.mod_eq_of_lt below]
  | succ turns inductionHypothesis =>
      rw [Function.iterate_succ_apply', trit_rotate below,
        mod_of_isWord (isWord_iterate_rotate word turns),
        inductionHypothesis (Nat.mod_lt _ (by decide)), Nat.mod_add_mod, Nat.add_assoc,
        Nat.add_comm 1]

/-- Ten turns bring every trit back to its place. -/
theorem iterate_rotate_ten (value : Int) : rotate^[10] value = value % memorySize := by
  have word := isWord_mod value
  rw [Function.iterate_succ_apply, ← rotate_mod, ← Function.iterate_succ_apply]
  refine eq_of_trits (isWord_iterate_rotate word 10) word fun place below => ?_
  rw [trit_iterate_rotate word below, Nat.add_mod_right, Nat.mod_eq_of_lt below]

end Rotate

/-- Both operations give words and act on the trits of the words that go in. The crazy operation looks up
each trit of its result in the table, a turn takes it from the next place above. Ten turns lead back, so no
two words become one. -/
theorem operations_act_on_trits :
    (∀ d a : Int, IsWord (crazy d a) ∧
      ∀ place < 10, trit (crazy d a) place =
        crazyTable[trit (d % memorySize) place][trit (a % memorySize) place]) ∧
    (∀ value : Int, IsWord (rotate value) ∧
      (∀ place < 10, trit (rotate value) place = trit (value % memorySize) ((place + 1) % 10)) ∧
      rotate^[10] value = value % memorySize) ∧
    ∀ value other : Int, IsWord value → IsWord other → rotate value = rotate other →
      value = other := by
  refine ⟨fun d a => ⟨isWord_crazy d a, fun place below => trit_crazy below d a⟩, fun value => ?_,
    fun value other word wordToo same => ?_⟩
  · exact ⟨isWord_rotate value, fun place below => trit_rotate below value,
      iterate_rotate_ten value⟩
  · calc value
        = rotate^[10] value := by rw [iterate_rotate_ten, mod_of_isWord word]
      _ = rotate^[10] other := by
          rw [Function.iterate_succ_apply, same, ← Function.iterate_succ_apply]
      _ = other := by rw [iterate_rotate_ten, mod_of_isWord wordToo]

/-- A number below zero stands for the greatest word, all of whose trits are twos. -/
theorem operations_act_on_trits_of_greatest :
    -1 % (memorySize : Int) = greatestWord ∧ trit (-1 % memorySize) 9 = 2 ∧
      trit (crazy (-1) 1) 0 = crazyTable[(2 : Fin 3)][(1 : Fin 3)] ∧ crazy (-1) 1 = 59048 ∧
      trit (rotate 1) 9 = trit 1 0 ∧ rotate 1 = 19683 ∧ rotate^[10] (-1) = greatestWord ∧
      IsWord 1 ∧ IsWord (rotate^[10] 1) ∧ rotate 1 = rotate (rotate^[10] 1) ∧
      1 = rotate^[10] (1 : Int) := by
  obtain ⟨combine, turn, once⟩ := operations_act_on_trits
  have one : IsWord 1 := ⟨by decide, by decide⟩
  have back : IsWord (rotate^[10] 1) := isWord_iterate_rotate one 10
  have same : rotate 1 = rotate (rotate^[10] 1) := by decide
  exact ⟨by decide, by decide, (combine (-1) 1).2 0 (by decide), by decide,
    (turn 1).2.1 9 (by decide), by decide, (turn (-1)).2.2, one, back, same,
    once 1 _ one back same⟩

end Esoterica.Malbolge
