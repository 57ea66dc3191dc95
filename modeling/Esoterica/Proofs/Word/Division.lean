import Mathlib.Data.Int.ModEq
import Mathlib.Data.Rat.Floor
import Esoterica.Stack
import Esoterica.Proofs.Word

/-!
Division of words. The truncated quotient is that of the values, and only one quotient is no word: that
of the least word by minus one, which wraps. Where it was rounded up, the floored quotient is one less
and the remainder is larger by the divisor; neither correction leaves the range of words.
-/

namespace Esoterica

namespace Word

/-- A division of `a` by `b` whose exact quotient is rounded to `rounded`. The quotient is the word of
that number, and the remainder is what it leaves of `a`. The two give `a` back but for a multiple of the
number of words. -/
structure Divides (a b : Word) (rounded : Int) (quotient remainder : Word) : Prop where
  quotient_eq : quotient = Int64.ofInt rounded
  remainder_eq : remainder.toInt = a.toInt - b.toInt * rounded
  whole : a.toInt ≡ b.toInt * quotient.toInt + remainder.toInt [ZMOD Int64.size]

/-- Truncation rounds the quotient up: the division leaves a remainder and the signs differ. -/
def RoundsUp (a b : Word) : Prop :=
  a % b ≠ 0 ∧ decide (a < 0) ≠ decide (b < 0)

instance (a b : Word) : Decidable (RoundsUp a b) :=
  inferInstanceAs (Decidable (_ ∧ _))

variable {a b : Word}

theorem roundsUp_iff :
    RoundsUp a b ↔ a.toInt.tmod b.toInt ≠ 0 ∧ (a.toInt < 0 ↔ ¬ b.toInt < 0) := by
  rw [RoundsUp, ne_zero_iff, Int64.toInt_mod, ne_eq (decide _), decide_eq_decide, lt_zero_iff,
    lt_zero_iff]
  tauto

/-- A remainder has the sign of the dividend. -/
theorem tmod_neg_iff {a b : Int} (remains : a.tmod b ≠ 0) : a.tmod b < 0 ↔ a < 0 := by
  have indivisible : ¬ b ∣ a := fun divides => remains (Int.dvd_iff_tmod_eq_zero.1 divides)
  rw [← Int.sign_eq_neg_one_iff_neg, Int.sign_tmod, if_neg indivisible, Int.sign_eq_neg_one_iff_neg]

theorem roundsUp_iff_remainder :
    RoundsUp a b ↔ a % b ≠ 0 ∧ decide (a % b < 0) ≠ decide (b < 0) := by
  apply and_congr_right
  intro remains
  rw [ne_zero_iff, Int64.toInt_mod] at remains
  have signs : a % b < 0 ↔ a < 0 := by
    rw [lt_zero_iff, lt_zero_iff, Int64.toInt_mod, tmod_neg_iff remains]
  simp only [signs]

theorem floorDiv_eq (a b : Word) :
    floorDiv a b = if RoundsUp a b then a / b - 1 else a / b := rfl

theorem floorMod_eq (a b : Word) :
    floorMod a b = if RoundsUp a b then a % b + b else a % b := by
  simp only [floorMod, roundsUp_iff_remainder]

/-- The floored quotient is the truncated one, less one where that was rounded up. -/
theorem fdiv_eq (nonzero : b.toInt ≠ 0) :
    a.toInt.fdiv b.toInt =
      if RoundsUp a b then a.toInt.tdiv b.toInt - 1 else a.toInt.tdiv b.toInt := by
  -- The library gives the difference by the sign of the divisor, which is not zero here.
  have positive : 0 ≤ b.toInt → b.toInt.sign = 1 := fun least => Int.sign_eq_one_of_pos (by omega)
  have negative : ¬ 0 ≤ b.toInt → b.toInt.sign = -1 := fun below => Int.sign_eq_neg_one_of_neg (by omega)
  simp only [Int.fdiv_eq_tdiv, Int.dvd_iff_tmod_eq_zero, roundsUp_iff]
  split_ifs <;> omega

theorem fmod_eq (nonzero : b.toInt ≠ 0) :
    a.toInt.fmod b.toInt =
      if RoundsUp a b then a.toInt.tmod b.toInt + b.toInt else a.toInt.tmod b.toInt := by
  rw [Int.fmod_def, Int.tmod_def, fdiv_eq nonzero]
  split
  · rw [Int.mul_sub]
    omega
  · rfl

/-- Where a remainder is left, the divisor is not one or minus one, and the quotient is at most half of
the dividend. -/
theorem natAbs_tdiv_le {a b : Int} (nonzero : b ≠ 0) (remains : a.tmod b ≠ 0) :
    2 * (a.tdiv b).natAbs ≤ a.natAbs := by
  have proper : 2 ≤ b.natAbs := by
    by_contra small
    have unit : b.natAbs = 1 := by omega
    have remainder := Int.natAbs_tmod a b
    rw [unit, Nat.mod_one] at remainder
    omega
  calc 2 * (a.tdiv b).natAbs
    _ ≤ b.natAbs * (a.natAbs / b.natAbs) := by
        rw [Int.natAbs_tdiv]
        exact Nat.mul_le_mul_right _ proper
    _ ≤ a.natAbs := Nat.mul_div_le _ _

theorem div_eq_ofInt (a b : Word) : a / b = Int64.ofInt (a.toInt.tdiv b.toInt) := by
  rw [eq_comm, Int64.ofInt_eq_iff_bmod_eq_toInt, Int64.toInt_div]

/-- One less than a quotient that was rounded up is a word. -/
theorem RoundsUp.add?_quotient (up : RoundsUp a b) (nonzero : b.toInt ≠ 0) :
    add? (a / b) (-1) = some (a / b - 1) := by
  have half := natAbs_tdiv_le nonzero (roundsUp_iff.1 up).1
  have lower : least ≤ a.toInt := a.le_toInt
  have upper : a.toInt ≤ greatest := a.toInt_le
  have inRange : least ≤ a.toInt.tdiv b.toInt - 1 ∧ a.toInt.tdiv b.toInt ≤ greatest := by
    unfold least greatest at *
    omega
  have exact : (a / b).toInt = a.toInt.tdiv b.toInt := by
    rw [div_eq_ofInt]
    exact toInt_ofInt (by omega) inRange.2
  have less : a / b - 1 = Int64.ofInt (a.toInt.tdiv b.toInt - 1) := by
    rw [div_eq_ofInt, Int64.ofInt_sub]
    rfl
  rw [add?_eq_some_iff, exact, less]
  exact toInt_ofInt inRange.1 (by omega)

/-- The remainder of a quotient that was rounded up and the divisor differ in sign, so that their sum is
a word. -/
theorem RoundsUp.add?_remainder (up : RoundsUp a b) :
    add? (a % b) b = some (a % b + b) := by
  obtain ⟨remains, signs⟩ := roundsUp_iff_remainder.1 up
  rw [ne_zero_iff] at remains
  rw [ne_eq, decide_eq_decide, lt_zero_iff, lt_zero_iff] at signs
  have lower : least ≤ (a % b).toInt := (a % b).le_toInt
  have upper : (a % b).toInt ≤ greatest := (a % b).toInt_le
  have lowerToo : least ≤ b.toInt := b.le_toInt
  have upperToo : b.toInt ≤ greatest := b.toInt_le
  have sum : a % b + b = Int64.ofInt ((a % b).toInt + b.toInt) := by
    rw [Int64.ofInt_add, Int64.ofInt_toInt, Int64.ofInt_toInt]
  rw [add?_eq_some_iff, sum]
  exact toInt_ofInt (by omega) (by omega)

theorem divides_of_eq {rounded : Int} {quotient remainder : Word}
    (quotient_eq : quotient = Int64.ofInt rounded)
    (remainder_eq : remainder.toInt = a.toInt - b.toInt * rounded) :
    Divides a b rounded quotient remainder where
  quotient_eq := quotient_eq
  remainder_eq := remainder_eq
  whole := by
    have wrapped : quotient.toInt ≡ rounded [ZMOD Int64.size] := by
      rw [quotient_eq, Int64.toInt_ofInt]
      exact Int.bmod_emod
    calc a.toInt
      _ = b.toInt * rounded + remainder.toInt := by omega
      _ ≡ b.toInt * quotient.toInt + remainder.toInt [ZMOD Int64.size] :=
          (wrapped.symm.mul_left _).add_right _

theorem divides_truncated (a b : Word) : Divides a b (a.toInt.tdiv b.toInt) (a / b) (a % b) := by
  apply divides_of_eq (div_eq_ofInt a b)
  rw [Int64.toInt_mod, Int.tmod_def]

theorem toInt_floorMod (nonzero : b.toInt ≠ 0) :
    (floorMod a b).toInt = a.toInt.fmod b.toInt := by
  rw [floorMod_eq, fmod_eq nonzero]
  split
  · rename_i up
    rw [add?_eq_some_iff.1 up.add?_remainder, Int64.toInt_mod]
  · exact Int64.toInt_mod a b

theorem divides_floored (nonzero : b.toInt ≠ 0) :
    Divides a b (a.toInt.fdiv b.toInt) (floorDiv a b) (floorMod a b) := by
  apply divides_of_eq
  · rw [floorDiv_eq, fdiv_eq nonzero]
    split
    · rw [div_eq_ofInt, Int64.ofInt_sub]
      rfl
    · exact div_eq_ofInt a b
  · rw [toInt_floorMod nonzero, Int.fmod_def]

/-- The quotient rounded down, as a fraction. -/
theorem floor_div (a b : Int) : ⌊(a : ℚ) / b⌋ = a.fdiv b := by
  have natural (a : Int) (b : Nat) : ⌊(a : ℚ) / ((b : Int) : ℚ)⌋ = a.fdiv b := by
    rw [Int.cast_natCast, Rat.floor_intCast_div_natCast,
      Int.fdiv_eq_ediv_of_nonneg _ (Int.natCast_nonneg b)]
  rcases Int.eq_nat_or_neg b with ⟨size, rfl | rfl⟩
  · exact natural a size
  · rw [Int.cast_neg, div_neg, ← neg_div, ← Int.cast_neg, natural, ← Int.neg_fdiv_neg a, Int.neg_neg]

theorem sign_fmod (a : Int) {b : Int} (nonzero : b ≠ 0) :
    a.fmod b = 0 ∨ (a.fmod b).sign = b.sign := by
  rcases Int.lt_or_gt_of_ne nonzero with negative | positive
  · have flipped := Int.fmod_nonneg_of_pos (-a) (show 0 < -b by omega)
    rw [Int.neg_fmod_neg] at flipped
    rcases Int.le_iff_eq_or_lt.1 (show a.fmod b ≤ 0 by omega) with zero | below
    · exact .inl zero
    · exact .inr (by rw [Int.sign_eq_neg_one_of_neg below, Int.sign_eq_neg_one_of_neg negative])
  · rcases Int.le_iff_eq_or_lt.1 (Int.fmod_nonneg_of_pos a positive) with zero | above
    · exact .inl zero.symm
    · exact .inr (by rw [Int.sign_eq_one_of_pos above, Int.sign_eq_one_of_pos positive])

end Word

namespace BinaryOp

/-- A division by anything but zero is exact for all words. Floored division rounds the fraction down,
and its remainder is zero or has the sign of the divisor; the other one rounds towards zero. Where the
floored results are made from the truncated ones by a correction, that is a sum in the range of words. -/
theorem division_is_exact (a b : Word) (nonzero : b ≠ 0) :
    Word.Divides a b ⌊(a.toInt : ℚ) / b.toInt⌋ (floorDiv.apply a b) (floorMod.apply a b) ∧
      (floorMod.apply a b = 0 ∨ (floorMod.apply a b).toInt.sign = b.toInt.sign) ∧
      Word.Divides a b (a.toInt.tdiv b.toInt) (div.apply a b) (mod.apply a b) ∧
      (a % b ≠ 0 ∧ decide (a < 0) ≠ decide (b < 0) →
        Word.add? (a / b) (-1) = some (floorDiv.apply a b)) ∧
      (a % b ≠ 0 ∧ decide (a % b < 0) ≠ decide (b < 0) →
        Word.add? (a % b) b = some (floorMod.apply a b)) := by
  have divisor : b.toInt ≠ 0 := Word.ne_zero_iff.1 nonzero
  refine ⟨?_, ?_, Word.divides_truncated a b, ?_, ?_⟩
  · rw [Word.floor_div]
    exact Word.divides_floored divisor
  · rw [← Int64.toInt_inj]
    change (Word.floorMod a b).toInt = 0 ∨ (Word.floorMod a b).toInt.sign = _
    rw [Word.toInt_floorMod divisor]
    exact Word.sign_fmod a.toInt divisor
  · intro corrected
    have up : Word.RoundsUp a b := corrected
    change _ = some (Word.floorDiv a b)
    rw [Word.floorDiv_eq, if_pos up]
    exact up.add?_quotient divisor
  · intro corrected
    have up : Word.RoundsUp a b := Word.roundsUp_iff_remainder.2 corrected
    change _ = some (Word.floorMod a b)
    rw [Word.floorMod_eq, if_pos up]
    exact up.add?_remainder

/-- The quotient of the least word by minus one wraps, and that by three is corrected within the range of
words. -/
theorem division_of_least_word_is_exact :
    (floorDiv.apply Int64.minValue (-1) = Int64.ofInt ⌊(Int64.minValue.toInt : ℚ) / (-1 : Word).toInt⌋ ∧
        floorDiv.apply Int64.minValue (-1) = Int64.minValue) ∧
      Word.add? (Int64.minValue / 3) (-1) = some (floorDiv.apply Int64.minValue 3) ∧
      Word.add? (Int64.minValue % 3) 3 = some (floorMod.apply Int64.minValue 3) := by
  have wraps := division_is_exact Int64.minValue (-1) (by decide)
  obtain ⟨_, _, _, quotient, remainder⟩ := division_is_exact Int64.minValue 3 (by decide)
  exact ⟨⟨wraps.1.quotient_eq, by decide⟩, quotient (by decide), remainder (by decide)⟩

end BinaryOp

end Esoterica
