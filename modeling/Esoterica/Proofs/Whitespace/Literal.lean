import Esoterica.Proofs.Whitespace.Grammar
import Esoterica.Proofs.Word

/-!
Which number literals are read. The digits are put together without their sign, and their number must
be a word at every digit. So a literal is refused at the first digit with which its magnitude is past the
greatest word, and the least word has no literal.
-/

namespace Esoterica.Whitespace

/-- A sign, digits with their positions, and a linefeed. -/
structure Literal where
  negative : Bool
  signAt : Nat
  digits : List (Bool × Nat)
  endAt : Nat

def digitToken (digit : Bool × Nat) : Token :=
  (.ofBool digit.1, digit.2)

/-- With the digit at this position, and not before it, the number is past the greatest word. -/
def OverflowsAt (magnitude : Nat) (digits : List (Bool × Nat)) (position : Nat) : Prop :=
  ∃ before digit after, digits = before ++ (digit, position) :: after ∧
    binaryFrom magnitude (before.map Prod.fst) ≤ Word.greatest ∧
    Word.greatest < binaryFrom magnitude (before.map Prod.fst ++ [digit])

namespace Literal

def tokens (literal : Literal) : List Token :=
  (.ofBool literal.negative, literal.signAt) ::
    (literal.digits.map digitToken ++ [(.linefeed, literal.endAt)])

def value (literal : Literal) : Int :=
  let magnitude := binaryFrom 0 (literal.digits.map Prod.fst)
  if literal.negative then -(magnitude : Int) else magnitude

end Literal

variable {magnitude position endAt : Nat} {digits : List (Bool × Nat)} {rest left : List Token}

theorem not_overflowsAt_nil : ¬ OverflowsAt magnitude [] position := by
  simp [OverflowsAt]

theorem OverflowsAt.le_greatest (overflows : OverflowsAt magnitude digits position) :
    magnitude ≤ Word.greatest := by
  obtain ⟨before, _, _, _, small, _⟩ := overflows
  have grown := le_binaryFrom magnitude (before.map Prod.fst)
  omega

/-- A number is too large with its first digit, or with a later one. -/
theorem overflowsAt_cons_iff {digit : Bool} {place : Nat} (small : magnitude ≤ Word.greatest) :
    OverflowsAt magnitude ((digit, place) :: digits) position ↔
      Word.greatest < 2 * magnitude + digit.toNat ∧ position = place ∨
        OverflowsAt (2 * magnitude + digit.toNat) digits position := by
  constructor
  · intro overflows
    obtain ⟨before, last, after, whole, fits, large⟩ := overflows
    cases before with
    | nil =>
        obtain ⟨⟨rfl, rfl⟩, rfl⟩ : (digit = last ∧ place = position) ∧ digits = after := by
          simpa using whole
        exact .inl ⟨large, rfl⟩
    | cons first before =>
        obtain ⟨rfl, rfl⟩ := List.cons_eq_cons.1 whole
        exact .inr ⟨before, last, after, rfl, fits, large⟩
  · intro overflows
    obtain ⟨large, rfl⟩ | ⟨before, last, after, rfl, fits, large⟩ := overflows
    · exact ⟨[], digit, digits, rfl, small, large⟩
    · exact ⟨(digit, place) :: before, last, after, rfl, fits, large⟩

/-- The row that tokens start with ends at the first linefeed. -/
theorem takes_digits_iff {marks : List Bool} :
    Takes (digits.map digitToken ++ (.linefeed, endAt) :: rest) (row marks) left ↔
      marks = digits.map Prod.fst ∧ left = rest := by
  induction digits generalizing marks with
  | nil =>
      rw [List.map_nil, List.nil_append, linefeed_takes_row_iff, List.map_nil, @eq_comm _ rest]
  | cons digit digits inductionHypothesis =>
      rw [List.map_cons, List.cons_append, digitToken, ofBool_takes_row_iff, List.map_cons]
      simp only [inductionHypothesis]
      constructor
      · intro ⟨others, equal, same, behind⟩
        rw [equal, same]
        exact ⟨rfl, behind⟩
      · intro ⟨equal, behind⟩
        exact ⟨_, equal, rfl, behind⟩

/-- Digits are refused at the first one with which their number is too large. -/
theorem readDigits_eq_error_iff {start : Nat} {negative : Bool} {error : Error}
    (small : magnitude ≤ Word.greatest) :
    readDigits start negative magnitude (digits.map digitToken ++ (.linefeed, endAt) :: rest) =
        .error error ↔
      ∃ position, OverflowsAt magnitude digits position ∧
        error = loadFault (.invalidNumber position "does not fit in 64 bits") := by
  induction digits generalizing magnitude with
  | nil =>
      simp only [List.map_nil, List.nil_append, readDigits, reduceCtorEq, false_iff]
      intro refused
      obtain ⟨position, overflows, _⟩ := refused
      exact not_overflowsAt_nil overflows
  | cons digit digits inductionHypothesis =>
      obtain ⟨digit, place⟩ := digit
      rw [List.map_cons, List.cons_append, digitToken, readDigits_ofBool]
      simp only [overflowsAt_cons_iff small]
      split
      · rename_i large
        have later : ∀ position, ¬ OverflowsAt (2 * magnitude + digit.toNat) digits position := by
          intro position overflows
          have fits := overflows.le_greatest
          omega
        simp [large, later, @eq_comm _ _ error]
      · rename_i fits
        rw [inductionHypothesis (by omega)]
        simp [fits]

theorem readNumber_literal (start : Nat) (literal : Literal) (rest : List Token) :
    readNumber start (literal.tokens ++ rest) =
      readDigits start literal.negative 0
        (literal.digits.map digitToken ++ (.linefeed, literal.endAt) :: rest) := by
  rw [Literal.tokens, List.cons_append, List.append_assoc, readNumber_ofBool]
  rfl

/-- A literal is read to its end if its value is a word above the least one. -/
theorem readNumber_literal_eq_ok_iff {start : Nat} {literal : Literal} {word : Word} :
    readNumber start (literal.tokens ++ rest) = .ok (word, left) ↔
      word.toInt = literal.value ∧ word.toInt ≠ Word.least ∧ left = rest := by
  have lower : Word.least ≤ word.toInt := word.le_toInt
  have upper : word.toInt ≤ Word.greatest := word.toInt_le
  have proper : word.toInt.natAbs < 9223372036854775808 ↔ word.toInt ≠ Word.least := by
    unfold Word.least Word.greatest at *
    omega
  rw [readNumber_literal, readDigits_eq_ok_iff (by decide)]
  simp only [takes_digits_iff, signed_eq_iff, proper]
  constructor
  · intro ⟨marks, ⟨same, behind⟩, valued, above⟩
    rw [same] at valued
    exact ⟨valued, above, behind⟩
  · intro ⟨valued, above, behind⟩
    exact ⟨_, ⟨rfl, behind⟩, valued, above⟩

/-- A literal is read to its end as the word of its value, unless that is the least word or no word. Then
it is refused, at the first digit with which its magnitude is past the greatest word. -/
theorem literals_read_above_least (start : Nat) (literal : Literal) (rest : List Token) :
    let read := readNumber start (literal.tokens ++ rest)
    (∀ word left, read = .ok (word, left) ↔
        word.toInt = literal.value ∧ word.toInt ≠ Word.least ∧ left = rest) ∧
      (∀ error, read = .error error ↔
        ∃ position, OverflowsAt 0 literal.digits position ∧
          error = loadFault (.invalidNumber position "does not fit in 64 bits")) ∧
      ((∃ position, OverflowsAt 0 literal.digits position) ↔
        literal.value ≤ Word.least ∨ Word.greatest < literal.value) := by
  intro read
  have accepted : ∀ word left, read = .ok (word, left) ↔
      word.toInt = literal.value ∧ word.toInt ≠ Word.least ∧ left = rest :=
    fun _ _ => readNumber_literal_eq_ok_iff
  have refused : ∀ error, read = .error error ↔
      ∃ position, OverflowsAt 0 literal.digits position ∧
        error = loadFault (.invalidNumber position "does not fit in 64 bits") := by
    intro error
    rw [← readDigits_eq_error_iff (by decide), ← readNumber_literal]
  constructor
  · exact accepted
  constructor
  · exact refused
  -- The reading ends in one of the two ways, so each is what the other is not.
  constructor
  · intro ⟨position, overflows⟩
    have failed := (refused _).2 ⟨position, overflows, rfl⟩
    by_cases within : Word.least < literal.value ∧ literal.value ≤ Word.greatest
    · have valued := Word.toInt_ofInt (Int.le_of_lt within.1) within.2
      have passed := (accepted _ rest).2 ⟨valued, by omega, rfl⟩
      rw [failed] at passed
      cases passed
    · omega
  · intro outside
    cases result : read with
    | error error =>
        obtain ⟨position, overflows, _⟩ := (refused error).1 result
        exact ⟨position, overflows⟩
    | ok found =>
        obtain ⟨valued, above, _⟩ := (accepted found.1 found.2).1 result
        have lower : Word.least ≤ found.1.toInt := found.1.le_toInt
        have upper : found.1.toInt ≤ Word.greatest := found.1.toInt_le
        omega

/-- The least word is refused, though it is a word. -/
theorem not_every_word_has_literal :
    ¬ ∀ (start : Nat) (literal : Literal) (rest : List Token),
      (∃ word, word.toInt = literal.value ∧
          readNumber start (literal.tokens ++ rest) = .ok (word, rest)) ↔
        Word.least ≤ literal.value ∧ literal.value ≤ Word.greatest := by
  intro reads
  let least : Literal :=
    ⟨true, 2, (true, 3) :: (List.range' 4 63).map fun place => (false, place), 67⟩
  have value : least.value = Word.least := by decide
  have within : Word.least ≤ least.value ∧ least.value ≤ Word.greatest := by
    rw [value]
    decide
  obtain ⟨word, valued, read⟩ := (reads 0 least []).2 within
  have above := (readNumber_literal_eq_ok_iff.1 read).2.1
  exact above (valued.trans value)

end Esoterica.Whitespace
