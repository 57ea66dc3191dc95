import Esoterica.Befunge.Machine
import Esoterica.Proofs.Input.Reading
import Mathlib.Data.List.Induction
import Mathlib.Data.Nat.Digits.Defs

/-!
Numbers that are printed and read again. Each is written in decimal with a blank behind it, and so the
texts of several numbers keep apart. All numbers come back but one: the magnitude of the least word is
past that of the greatest, at which the reading stops.
-/

namespace Esoterica

namespace Word

/-- The word as it comes back from its decimal notation. Only the least word has a magnitude past that
of the greatest word. -/
def readBack (value : Word) : Word :=
  Int64.ofInt (max (-greatest) value.toInt)

theorem toInt_readBack (value : Word) : value.readBack.toInt = max (-greatest) value.toInt := by
  have upper : value.toInt ≤ greatest := value.toInt_le
  unfold readBack
  apply toInt_ofInt
  · unfold least greatest
    omega
  · unfold greatest at *
    omega

theorem readBack_eq_self_iff {value : Word} : value.readBack = value ↔ value.toInt ≠ least := by
  have lower : least ≤ value.toInt := value.le_toInt
  rw [← Int64.toInt_inj, toInt_readBack]
  unfold least greatest at *
  omega

/-- The decimal notation of a word is a sign, for a negative one, and the digits of its magnitude. -/
theorem toList_text (value : Word) :
    value.text.toList =
      (if value.toInt < 0 then ['-'] else []) ++ Nat.toDigits 10 value.toInt.natAbs := by
  unfold text
  generalize value.toInt = number
  cases number with
  | ofNat magnitude =>
      have positive : ¬ Int.ofNat magnitude < 0 := Int.not_lt.2 (Int.natCast_nonneg magnitude)
      rw [if_neg positive]
      exact Nat.toList_repr
  | negSucc magnitude =>
      rw [if_pos (Int.negSucc_lt_zero magnitude)]
      change ("-" ++ Nat.repr (magnitude + 1)).toList = _
      rw [String.toList_append, Nat.toList_repr]
      rfl

/-- The magnitude of a word has nineteen digits at most. -/
theorem length_toDigits_le (value : Word) : (Nat.toDigits 10 value.toInt.natAbs).length ≤ 19 := by
  have lower : least ≤ value.toInt := value.le_toInt
  have upper : value.toInt ≤ greatest := value.toInt_le
  apply Nat.toDigits_length 10 _ 19 (by decide)
  unfold least greatest at *
  omega

end Word

namespace Input

/-- What reads of numbers give one after another. -/
def numbers (input : Input) : Nat → List (Option Word)
  | 0 => []
  | count + 1 => input.readNumber.1 :: input.readNumber.2.numbers count

variable {input : Input} {blanks : List Char}

/-- A word is read from its decimal notation up to the blank behind it. -/
theorem readNumber_text {value : Word} {rest : List Char}
    (split : input.remaining = blanks ++ (value.text.toList ++ ' ' :: rest))
    (blank : ∀ c ∈ blanks, Text.isBlank c) :
    input.readNumber = (some value.readBack, input.skip (blanks ++ value.text.toList).length) := by
  have run : DigitRun (Nat.toDigits 10 value.toInt.natAbs) (' ' :: rest) :=
    ⟨Nat.toDigits_ne_nil, fun c => Nat.isDigit_of_mem_toDigits (by decide) (by decide), rfl⟩
  have few := value.length_toDigits_le.trans_lt (by decide : 19 < 2 ^ 31)
  have upper : value.toInt ≤ Word.greatest := value.toInt_le
  rw [Word.toList_text] at split ⊢
  rw [List.append_assoc] at split
  by_cases negative : value.toInt < 0
  · rw [if_pos negative] at split ⊢
    apply readNumber_of_run split blank .minus run few
    rw [Word.toInt_readBack, spelled, Nat.ofDigitChars_ten_toDigits, if_pos rfl]
    unfold Word.greatest
    omega
  · rw [if_neg negative] at split ⊢
    apply readNumber_of_run split blank .absent run few
    rw [Word.toInt_readBack, spelled, Nat.ofDigitChars_ten_toDigits]
    unfold Word.greatest at *
    simp only [Bool.false_eq_true, if_false]
    omega

/-- Nothing but blanks gives no number, however often it is read. -/
theorem numbers_of_blanks (blank : ∀ c ∈ input.remaining, Text.isBlank c) (count : Nat) :
    input.numbers count = List.replicate count none := by
  induction count generalizing input with
  | zero => rfl
  | succ count inductionHypothesis =>
      rw [numbers, readNumber_of_blanks blank, inductionHypothesis (by simp [skip])]
      rfl

/-- The texts of words, each with a blank behind it, are read one after another. -/
theorem numbers_texts {values : List Word}
    (split : input.remaining = blanks ++ values.flatMap fun value => value.text.toList ++ [' '])
    (blank : ∀ c ∈ blanks, Text.isBlank c) (more : Nat) :
    input.numbers (values.length + more) =
      values.map (fun value => some value.readBack) ++ List.replicate more none := by
  induction values generalizing input blanks with
  | nil =>
      rw [List.flatMap_nil, List.append_nil] at split
      rw [List.length_nil, Nat.zero_add]
      exact numbers_of_blanks (split ▸ blank) more
  | cons value values inductionHypothesis =>
      rw [List.flatMap_cons, List.append_assoc, List.singleton_append] at split
      -- The blank behind the first number is left, and stands in front of the others.
      have left := remaining_skip (split.trans (List.append_assoc _ _ _).symm)
      have others := inductionHypothesis (left.trans (List.singleton_append).symm)
        (List.forall_mem_singleton.2 rfl)
      rw [List.length_cons, Nat.add_right_comm, numbers, readNumber_text split blank, others,
        List.map_cons, List.cons_append]

end Input

theorem Output.eq_of_chars {first second : Output} (same : first.chars = second.chars) :
    first = second := by
  obtain ⟨_, _, rfl⟩ := first
  obtain ⟨_, _, rfl⟩ := second
  cases same
  rfl

namespace Befunge

/-- What `.` has written for these values. Each time it finds its value on top of the stack and the
output as it left it; everything else in the state may have changed in between. -/
inductive Prints (options : Options) : List Word → Output → Prop
  | nothing : Prints options [] .empty
  | next {values : List Word} {state after : State Registers}
      (before : Prints options values state.output)
      (printed : execute options .outputNumber state = ⟨after, none⟩) :
      Prints options (values ++ [state.pop.1]) after.output

theorem chars_of_prints {options : Options} {values : List Word} {output : Output}
    (prints : Prints options values output) :
    output.chars.toList = values.flatMap fun value => value.text.toList ++ [' '] := by
  induction prints with
  | nothing => rfl
  | @next values state after before printed inductionHypothesis =>
      cases printed
      rw [List.flatMap_append, ← inductionHypothesis, List.flatMap_singleton]
      change (state.output.writeText (state.pop.1.text ++ " ")).chars.toList = _
      simp [Output.writeText]

theorem exists_prints (options : Options) (values : List Word) :
    ∃ output, Prints options values output := by
  induction values using List.reverseRecOn with
  | nil => exact ⟨_, .nothing⟩
  | append_singleton values value inductionHypothesis =>
      obtain ⟨output, before⟩ := inductionHypothesis
      let state : State Registers :=
        { registers := { field := {}, dice := .thrown [] }, stack := .ofList [value], output }
      have printed : Prints options (values ++ [state.pop.1]) _ := .next before rfl
      exact ⟨_, printed⟩

/-- What was printed is read again, up to the end of the text. -/
theorem numbers_of_prints {options : Options} {values : List Word} {output : Output}
    (prints : Prints options values output) (more : Nat) :
    (Input.ofString output.text).numbers (values.length + more) =
      values.map (fun value => some value.readBack) ++ List.replicate more none := by
  have remaining : (Input.ofString output.text).remaining =
      [] ++ values.flatMap fun value => value.text.toList ++ [' '] := by
    rw [Input.ofString, Output.text, String.toList_ofList, chars_of_prints prints, List.nil_append]
  exact Input.numbers_texts remaining (List.forall_mem_nil _) more

/-- What `.` writes for numbers is one text, whatever else the program does. Read again, it gives the
numbers in their order and then nothing, except that the least word comes back as the one after it. So
all numbers come back exactly if the least word is not among them. -/
theorem printed_numbers_read_back (options : Options) (values : List Word) (more : Nat) :
    ∃ output, (∀ other, Prints options values other ↔ other = output) ∧
      let read := (Input.ofString output.text).numbers (values.length + more)
      read = values.map (fun value => some value.readBack) ++ List.replicate more none ∧
        (read = values.map some ++ List.replicate more none ↔
          ∀ value ∈ values, value.toInt ≠ Word.least) := by
  obtain ⟨output, prints⟩ := exists_prints options values
  have unique : ∀ other, Prints options values other ↔ other = output := by
    intro other
    constructor
    · intro printed
      apply Output.eq_of_chars
      apply Array.toList_inj.1
      rw [chars_of_prints printed, chars_of_prints prints]
    · intro same
      rw [same]
      exact prints
  have read := numbers_of_prints prints more
  refine ⟨output, unique, read, ?_⟩
  rw [read, List.append_left_inj, List.map_inj_left]
  apply forall₂_congr
  intro value member
  rw [Option.some_inj]
  exact Word.readBack_eq_self_iff

/-- The least word does not come back. -/
theorem not_every_printed_number_comes_back :
    ¬ ∀ (options : Options) (values : List Word) (output : Output), Prints options values output →
      (Input.ofString output.text).numbers (values.length + 1) = values.map some ++ [none] := by
  intro back
  obtain ⟨output, prints⟩ := exists_prints {} [Int64.ofInt Word.least]
  have same := (numbers_of_prints prints 1).symm.trans (back _ _ output prints)
  exact absurd same (by decide)

end Befunge

end Esoterica
