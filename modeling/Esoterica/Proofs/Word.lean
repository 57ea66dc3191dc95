import Esoterica.Word

/-!
Words and their values: which numbers are words, when a sum and a negative are, and what a number comes to
that is put together digit by digit.
-/

namespace Esoterica.Word

theorem zero_le_iff {value : Word} : 0 ≤ value ↔ 0 ≤ value.toInt :=
  Int64.le_iff_toInt_le

theorem lt_zero_iff {value : Word} : value < 0 ↔ value.toInt < 0 :=
  Int64.lt_iff_toInt_lt

theorem ne_zero_iff {value : Word} : value ≠ 0 ↔ value.toInt ≠ 0 :=
  not_congr Int64.toInt_inj.symm

/-- A number in the range of words is the value of a word. -/
theorem toInt_ofInt {value : Int} (least : least ≤ value) (greatest : value ≤ greatest) :
    (Int64.ofInt value).toInt = value :=
  Int64.toInt_ofInt_of_le least (Int.lt_of_le_of_lt greatest (by decide))

/-- The sum of two words is a word exactly if it is that of their values. -/
theorem add?_eq_some_iff {a b sum : Word} :
    add? a b = some sum ↔ sum.toInt = a.toInt + b.toInt := by
  unfold add? ofInt?
  constructor
  · intro added
    split at added
    · rename_i inRange
      cases added
      exact toInt_ofInt inRange.1 inRange.2
    · cases added
  · intro value
    have lower : least ≤ sum.toInt := sum.le_toInt
    have upper : sum.toInt ≤ greatest := sum.toInt_le
    rw [← value, if_pos ⟨lower, upper⟩, Int64.ofInt_toInt]

/-- All words but the least one have a negative. -/
theorem toInt_neg {value : Word} (proper : value.toInt ≠ least) :
    (-value).toInt = -value.toInt := by
  have lower : least ≤ value.toInt := value.le_toInt
  have upper : value.toInt ≤ greatest := value.toInt_le
  rw [Int64.toInt_neg]
  unfold least greatest at *
  exact Int.bmod_eq_of_le (by omega) (by omega)

theorem toInt_nearest (value : Int) : (nearest value).toInt = max least (min value greatest) := by
  apply toInt_ofInt
  · exact Int.le_max_left _ _
  · unfold least greatest
    omega

/-- A magnitude that was cut off stays cut off with another digit. -/
theorem toInt_appendDigit {value : Word} {magnitude : Nat}
    (valued : value.toInt = min (magnitude : Int) greatest) (digit : Nat) :
    (value.appendDigit digit).toInt = min ((10 * magnitude + digit : Nat) : Int) greatest := by
  rw [appendDigit, toInt_nearest, toInt_nearest, valued]
  unfold least greatest
  omega

theorem toInt_foldl_appendDigit (digits : List Char) {value : Word} {magnitude : Nat}
    (valued : value.toInt = min (magnitude : Int) greatest) :
    (digits.foldl (fun value c => value.appendDigit (c.toNat - '0'.toNat)) value).toInt =
      min (Nat.ofDigitChars 10 digits magnitude : Int) greatest := by
  induction digits generalizing value magnitude with
  | nil => exact valued
  | cons digit digits inductionHypothesis =>
      exact inductionHypothesis (toInt_appendDigit valued _)

end Esoterica.Word
