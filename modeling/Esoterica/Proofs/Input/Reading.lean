import Mathlib.Algebra.Group.Nat.Defs
import Mathlib.Data.List.TakeWhile
import Esoterica.Input
import Esoterica.Proofs.Word

/-!
Reading the input. Characters, numbers and lines are taken from the front of what remains, in any order
of reads. What each read takes and gives is a relation between texts; that nothing is lost and that every
read which gives something takes something is read off it, and holds along every sequence of reads. It
takes that digits in a row can be counted, and with `2 ^ 32` of them it fails.
-/

namespace Esoterica.Input

/-- A way to read the input. -/
inductive Read where
  | char
  | number
  | line
  | peek
deriving DecidableEq

/-- What a read gives. -/
inductive Item where
  | char (c : Char)
  | number (value : Word)
  | line (text : List Char)
deriving DecidableEq

/-- What a read gives, if anything, and the input after it. -/
def perform (input : Input) : Read → Option Item × Input
  | .char => (input.readChar.1.map .char, input.readChar.2)
  | .number => (input.readNumber.1.map .number, input.readNumber.2)
  | .line => (input.readLine.1.map .line, input.readLine.2)
  | .peek => (input.peek?.map .char, input)

/-- The input after reads in this order. -/
def after (input : Input) (reads : List Read) : Input :=
  reads.foldl (fun input read => (input.perform read).2) input

/-- How many of these reads give something. Peeks do not count. -/
def answers (input : Input) : List Read → Nat
  | [] => 0
  | read :: reads =>
    (if read ≠ .peek ∧ (input.perform read).1.isSome then 1 else 0) +
      (input.perform read).2.answers reads

/-- What may stand before the digits of a number, and whether it makes the number negative. -/
inductive Sign : List Char → Bool → Prop
  | absent : Sign [] false
  | plus : Sign ['+'] false
  | minus : Sign ['-'] true

/-- Digits, at least one, and what comes after the last of them. -/
structure DigitRun (digits rest : List Char) : Prop where
  nonempty : digits ≠ []
  digits : ∀ c ∈ digits, c.isDigit
  maximal : startsWithDigit rest = false

/-- The number that digits spell, with its sign. The magnitude is at most that of the greatest word. -/
def spelled (negative : Bool) (digits : List Char) : Int :=
  let magnitude := min (Nat.ofDigitChars 10 digits 0 : Int) Word.greatest
  if negative then -magnitude else magnitude

/-- What a read gives for a remaining text, and what remains after it. -/
inductive Reads : Read → List Char → Option Item → List Char → Prop
  | char (c : Char) (rest : List Char) : Reads .char (c :: rest) (some (.char c)) rest
  | noChar : Reads .char [] none []
  | line {line : List Char} (unbroken : '\n' ∉ line) (rest : List Char) :
      Reads .line (line ++ '\n' :: rest) (some (.line line)) rest
  | lastLine {line : List Char} (unbroken : '\n' ∉ line) (nonempty : line ≠ []) :
      Reads .line line (some (.line line)) []
  | noLine : Reads .line [] none []
  | number {blanks sign digits rest : List Char} {negative : Bool} {value : Word}
      (blank : ∀ c ∈ blanks, Text.isBlank c) (signed : Sign sign negative)
      (run : DigitRun digits rest) (valued : value.toInt = spelled negative digits) :
      Reads .number (blanks ++ (sign ++ (digits ++ rest))) (some (.number value)) rest
  | other {blanks rest : List Char} {c : Char} (blank : ∀ c ∈ blanks, Text.isBlank c)
      (visible : Text.isBlank c = false) (noDigit : c.isDigit = false)
      (noSign : c = '+' ∨ c = '-' → startsWithDigit rest = false) :
      Reads .number (blanks ++ c :: rest) (some (.number 0)) rest
  | noNumber {blanks : List Char} (blank : ∀ c ∈ blanks, Text.isBlank c) :
      Reads .number blanks none []
  | peek (remaining : List Char) : Reads .peek remaining (remaining.head?.map .char) remaining

/-- However many digits stand in a row, they can be counted with 32 bits. -/
def Countable (text : List Char) : Prop :=
  ∀ digits, digits <:+: text → (∀ c ∈ digits, c.isDigit) → digits.length < 2 ^ 31

/-- There is nothing left for a read. Blanks are nothing to one of a number. -/
def Spent (read : Read) (remaining : List Char) : Prop :=
  match read with
  | .number => ∀ c ∈ remaining, Text.isBlank c
  | .char | .line | .peek => remaining = []

variable {blanks sign digits rest : List Char} {negative : Bool}

theorem toInt_spelled (negative : Bool) (digits : List Char) :
    (if negative then -magnitude digits else magnitude digits).toInt = spelled negative digits := by
  have zero : (0 : Word).toInt = min ((0 : Nat) : Int) Word.greatest := rfl
  have valued : (magnitude digits).toInt = min (Nat.ofDigitChars 10 digits 0 : Int) Word.greatest :=
    Word.toInt_foldl_appendDigit digits zero
  cases negative with
  | false => exact valued
  | true =>
      have proper : (magnitude digits).toInt ≠ Word.least := by
        rw [valued]
        unfold Word.least Word.greatest
        omega
      change (-magnitude digits).toInt = _
      rw [Word.toInt_neg proper, valued]
      rfl

/-- The count is the number of digits, modulo `2 ^ 32`. -/
theorem countDigits_eq (digits : List Char) : countDigits digits = Int32.ofNat digits.length := by
  have counted (count : Nat) : digits.foldl (fun count _ => count + 1) (Int32.ofNat count) =
      Int32.ofNat (count + digits.length) := by
    induction digits generalizing count with
    | nil => rfl
    | cons c digits inductionHypothesis =>
        rw [List.foldl_cons, List.length_cons, Nat.add_comm _ 1, ← Nat.add_assoc, ← inductionHypothesis,
          Int32.ofNat_add]
        rfl
  exact (counted 0).trans (by rw [Nat.zero_add])

/-- Digits that can be counted are not taken for none. -/
theorem countDigits_ne_zero (nonempty : digits ≠ []) (few : digits.length < 2 ^ 31) :
    countDigits digits ≠ 0 := by
  intro none
  rw [countDigits_eq] at none
  have value := congrArg Int32.toInt none
  rw [Int32.toInt_ofNat_of_lt few, Int32.toInt_zero] at value
  have positive := List.length_pos_iff.2 nonempty
  omega

theorem not_isBlank_of_isDigit {c : Char} (digit : c.isDigit) : Text.isBlank c = false := by
  have bounds : 48 ≤ c.toNat ∧ c.toNat ≤ 57 := by
    simpa [Char.isDigit, UInt32.le_iff_toNat_le] using digit
  simp only [Text.isBlank, Bool.or_eq_false_iff, Bool.and_eq_false_iff, beq_eq_false_iff_ne,
    decide_eq_false_iff_not]
  omega

theorem DigitRun.exists_cons (run : DigitRun digits rest) :
    ∃ first more, digits = first :: more ∧ first.isDigit := by
  cases digits with
  | nil => exact absurd rfl run.nonempty
  | cons first more => exact ⟨first, more, rfl, run.digits first List.mem_cons_self⟩

theorem DigitRun.span (run : DigitRun digits rest) :
    (digits ++ rest).takeWhile Char.isDigit = digits ∧
      (digits ++ rest).dropWhile Char.isDigit = rest := by
  have maximal := run.maximal
  rw [List.takeWhile_append_of_pos run.digits, List.dropWhile_append_of_pos run.digits]
  cases rest with
  | nil => simp
  | cons c rest =>
      have stops : ¬ c.isDigit := by simpa [startsWithDigit] using maximal
      rw [List.takeWhile_cons_of_neg stops, List.dropWhile_cons_of_neg stops, List.append_nil]
      exact ⟨rfl, rfl⟩

theorem exists_digitRun {body : List Char} (starts : startsWithDigit body = true) :
    ∃ digits rest, body = digits ++ rest ∧ DigitRun digits rest := by
  refine ⟨body.takeWhile Char.isDigit, body.dropWhile Char.isDigit,
    List.takeWhile_append_dropWhile.symm, ?_, fun c => List.mem_takeWhile_imp, ?_⟩
  · cases body with
    | nil => cases starts
    | cons c rest =>
        have digit : c.isDigit := starts
        rw [List.takeWhile_cons_of_pos digit]
        exact List.cons_ne_nil _ _
  · have stops := List.head?_dropWhile_not Char.isDigit body
    cases after : body.dropWhile Char.isDigit with
    | nil => rfl
    | cons c rest =>
        rw [after] at stops
        exact stops

section Skipping

variable {input : Input} {front : List Char}

theorem skip_skip (input : Input) (first second : Nat) :
    (input.skip first).skip second = input.skip (first + second) := by
  simp only [skip, List.drop_drop, Nat.add_assoc]

theorem remaining_skip (split : input.remaining = front ++ rest) :
    (input.skip front.length).remaining = rest := by
  rw [skip, split, List.drop_left]

/-- Blanks are skipped up to the first character that is none. -/
theorem takeWhile_isBlank_append (blank : ∀ c ∈ blanks, Text.isBlank c) {first : Char}
    (visible : Text.isBlank first = false) (rest : List Char) :
    (blanks ++ first :: rest).takeWhile Text.isBlank = blanks := by
  rw [List.takeWhile_append_of_pos blank, List.takeWhile_cons_of_neg (by simp [visible]),
    List.append_nil]

/-- A text behind blanks is read as if it stood alone. -/
theorem readNumber_behind_blanks {first : Char} (split : input.remaining = blanks ++ first :: rest)
    (blank : ∀ c ∈ blanks, Text.isBlank c) (visible : Text.isBlank first = false) :
    let visible := input.skip blanks.length
    let read := if (first == '-' || first == '+') && startsWithDigit rest then
      (visible.skip 1).readDigits (first == '-') else visible.readDigits false
    input.readNumber = (some read.1, read.2) := by
  intro visible read
  have skipped : input.remaining.takeWhile Text.isBlank = blanks := by
    rw [split, takeWhile_isBlank_append blank ‹_›]
  have left : visible.remaining = first :: rest := remaining_skip split
  simp only [readNumber, skipped, left, visible, read]

end Skipping

section Numbers

variable {input : Input}

theorem readNumber_of_blanks (blank : ∀ c ∈ input.remaining, Text.isBlank c) :
    input.readNumber = (none, input.skip input.remaining.length) := by
  have all : input.remaining.takeWhile Text.isBlank = input.remaining :=
    List.takeWhile_eq_self_iff.2 blank
  have nothing : (input.skip input.remaining.length).remaining = [] := List.drop_length
  simp only [readNumber, all, nothing]

/-- The digits in front are taken, and one more character if they have not been counted. -/
theorem readDigits_of_run (split : input.remaining = digits ++ rest) (run : DigitRun digits rest)
    (negative : Bool) :
    input.readDigits negative =
      if countDigits digits = 0 then (0, input.skip (digits.length + 1))
      else (if negative then -magnitude digits else magnitude digits, input.skip digits.length) := by
  simp only [readDigits, split, run.span.1, skip_skip]

/-- A sign moves the beginning of the digits by one place, and only a minus changes the number. -/
theorem readNumber_of_sign (split : input.remaining = blanks ++ (sign ++ (digits ++ rest)))
    (blank : ∀ c ∈ blanks, Text.isBlank c) (signed : Sign sign negative) (run : DigitRun digits rest) :
    let read := (input.skip (blanks.length + sign.length)).readDigits negative
    input.readNumber = (some read.1, read.2) := by
  obtain ⟨first, more, rfl, digit⟩ := run.exists_cons
  have starts : startsWithDigit (first :: more ++ rest) = true := digit
  cases signed with
  | absent =>
      have unsigned : first ≠ '-' ∧ first ≠ '+' := by
        constructor <;> intro same <;> rw [same] at digit <;> cases digit
      rw [readNumber_behind_blanks split blank (not_isBlank_of_isDigit digit)]
      simp [unsigned]
  | plus =>
      have split : input.remaining = blanks ++ '+' :: (first :: more ++ rest) := split
      rw [readNumber_behind_blanks split blank rfl, starts, skip_skip]
      rfl
  | minus =>
      have split : input.remaining = blanks ++ '-' :: (first :: more ++ rest) := split
      rw [readNumber_behind_blanks split blank rfl, starts, skip_skip]
      rfl

theorem readNumber_of_run (split : input.remaining = blanks ++ (sign ++ (digits ++ rest)))
    (blank : ∀ c ∈ blanks, Text.isBlank c) (signed : Sign sign negative) (run : DigitRun digits rest)
    (few : digits.length < 2 ^ 31) {value : Word} (valued : value.toInt = spelled negative digits) :
    input.readNumber = (some value, input.skip (blanks ++ (sign ++ digits)).length) := by
  have same := Int64.toInt_inj.1 ((toInt_spelled negative digits).trans valued.symm)
  have behind : (input.skip (blanks.length + sign.length)).remaining = digits ++ rest := by
    rw [← List.length_append]
    exact remaining_skip (split.trans (List.append_assoc _ _ _).symm)
  rw [readNumber_of_sign split blank signed run, readDigits_of_run behind run,
    if_neg (countDigits_ne_zero run.nonempty few), same, skip_skip, List.length_append,
    List.length_append, Nat.add_assoc]

theorem readNumber_of_other {c : Char} (split : input.remaining = blanks ++ c :: rest)
    (blank : ∀ c ∈ blanks, Text.isBlank c) (visible : Text.isBlank c = false)
    (noDigit : c.isDigit = false) (noSign : c = '+' ∨ c = '-' → startsWithDigit rest = false) :
    input.readNumber = (some 0, input.skip (blanks ++ [c]).length) := by
  have unsigned : ((c == '-' || c == '+') && startsWithDigit rest) = false := by
    by_cases sign : c = '+' ∨ c = '-'
    · rw [noSign sign, Bool.and_false]
    · have neither : (c == '-' || c == '+') = false := by
        simpa [and_comm] using sign
      rw [neither, Bool.false_and]
  have none : (c :: rest).takeWhile Char.isDigit = [] :=
    List.takeWhile_cons_of_neg (by simp [noDigit])
  have left : (input.skip blanks.length).remaining = c :: rest := remaining_skip split
  rw [readNumber_behind_blanks split blank visible, unsigned]
  simp only [Bool.false_eq_true, if_false, readDigits, left, none, skip_skip, List.length_append]
  rfl

end Numbers

section Lines

variable {input : Input} {line : List Char}

/-- The line is taken, and the linefeed behind it if there is one. -/
theorem readLine_of_line (split : input.remaining = line ++ rest) (unbroken : '\n' ∉ line)
    (nonempty : input.remaining ≠ []) (ends : ∀ c, rest.head? = some c → c = '\n') :
    input.readLine = (some line, (input.skip line.length).readChar.2) := by
  have kept : ∀ c ∈ line, decide (c ≠ '\n') = true := by
    intro c member
    rw [decide_eq_true_eq]
    intro same
    exact unbroken (same ▸ member)
  have taken : input.remaining.takeWhile (· ≠ '\n') = line := by
    rw [split, List.takeWhile_append_of_pos kept]
    cases rest with
    | nil => simp
    | cons c rest => simp [ends c rfl]
  have unread : ¬ (input.isExhausted = true) := by
    rw [isExhausted, List.isEmpty_iff]
    exact nonempty
  rw [readLine, if_neg unread]
  simp only [taken]

end Lines

theorem countable_of_length_lt {text : List Char} (short : text.length < 2 ^ 31) : Countable text :=
  fun _ infixed _ => infixed.length_le.trans_lt short

/-- Digits that are read stand in the text. -/
theorem Countable.few {text : List Char} (countable : Countable text) {front : List Char}
    (split : text = front ++ (digits ++ rest)) (run : DigitRun digits rest) :
    digits.length < 2 ^ 31 :=
  countable digits ⟨front, rest, by rw [split, List.append_assoc]⟩ run.digits

/-- Reading gives and leaves what the relation says, as long as digits can be counted. It passes just what
it takes. -/
theorem perform_of_reads {read : Read} {input : Input} {item : Option Item}
    (countable : Countable input.remaining) (reads : Reads read input.remaining item rest) :
    ∃ taken, input.remaining = taken ++ rest ∧ input.perform read = (item, input.skip taken.length) := by
  generalize split : input.remaining = remaining at reads countable
  cases reads with
  | char c rest => exact ⟨[c], rfl, by simp only [perform, readChar, split]; rfl⟩
  | noChar => exact ⟨[], rfl, by simp only [perform, readChar, split]; rfl⟩
  | noLine => exact ⟨[], rfl, by simp only [perform, readLine, isExhausted, split]; rfl⟩
  | peek => exact ⟨[], rfl, by simp only [perform, peek?, split]; rfl⟩
  | @line line unbroken rest =>
      have behind := remaining_skip split
      refine ⟨line ++ ['\n'], by simp, ?_⟩
      rw [perform, readLine_of_line split unbroken (by simp [split]) (by simp)]
      simp only [readChar, behind, skip_skip, List.length_append, List.length_singleton, Option.map_some]
  | lastLine unbroken nonempty =>
      have whole : input.remaining = remaining ++ [] := split.trans (List.append_nil _).symm
      have behind := remaining_skip whole
      refine ⟨remaining, (List.append_nil _).symm, ?_⟩
      rw [perform, readLine_of_line whole unbroken (split ▸ nonempty) (by simp)]
      simp only [readChar, behind, Option.map_some]
  | @number blanks sign digits _ _ _ blank signed run valued =>
      have few := countable.few (List.append_assoc blanks sign _).symm run
      refine ⟨blanks ++ (sign ++ digits), by simp, ?_⟩
      rw [perform, readNumber_of_run split blank signed run few valued]
      rfl
  | @other blanks _ c blank visible noDigit noSign =>
      refine ⟨blanks ++ [c], by simp, ?_⟩
      rw [perform, readNumber_of_other split blank visible noDigit noSign]
      rfl
  | noNumber blank =>
      refine ⟨remaining, (List.append_nil _).symm, ?_⟩
      rw [perform, readNumber_of_blanks (split ▸ blank), split]
      rfl

theorem exists_reads_line (remaining : List Char) : ∃ item rest, Reads .line remaining item rest := by
  by_cases breaks : '\n' ∈ remaining
  · obtain ⟨line, rest, rfl, unbroken⟩ := List.eq_append_cons_of_mem breaks
    exact ⟨_, _, .line unbroken rest⟩
  · cases remaining with
    | nil => exact ⟨_, _, .noLine⟩
    | cons c rest => exact ⟨_, _, .lastLine breaks (List.cons_ne_nil c rest)⟩

theorem exists_reads_visible (blank : ∀ c ∈ blanks, Text.isBlank c) {c : Char}
    (visible : Text.isBlank c = false) (rest : List Char) :
    ∃ item later, Reads .number (blanks ++ c :: rest) item later := by
  by_cases digit : c.isDigit
  · have starts : startsWithDigit (c :: rest) = true := digit
    obtain ⟨digits, later, body, run⟩ := exists_digitRun starts
    rw [body]
    exact ⟨_, _, .number blank .absent run (toInt_spelled false digits)⟩
  · by_cases signed : (c = '+' ∨ c = '-') ∧ startsWithDigit rest = true
    · obtain ⟨digits, later, body, run⟩ := exists_digitRun signed.2
      rw [body]
      rcases signed.1 with plus | minus
      · rw [plus]
        exact ⟨_, _, .number blank .plus run (toInt_spelled false digits)⟩
      · rw [minus]
        exact ⟨_, _, .number blank .minus run (toInt_spelled true digits)⟩
    · refine ⟨_, _, .other blank visible (by simpa using digit) fun sign => ?_⟩
      rw [← Bool.not_eq_true]
      exact fun starts => signed ⟨sign, starts⟩

theorem exists_reads_number (remaining : List Char) :
    ∃ item rest, Reads .number remaining item rest := by
  have blank : ∀ c ∈ remaining.takeWhile Text.isBlank, Text.isBlank c :=
    fun c => List.mem_takeWhile_imp
  have visible := List.head?_dropWhile_not Text.isBlank remaining
  have whole : remaining.takeWhile Text.isBlank ++ remaining.dropWhile Text.isBlank = remaining :=
    List.takeWhile_append_dropWhile
  cases after : remaining.dropWhile Text.isBlank with
  | nil =>
      rw [after, List.append_nil] at whole
      rw [← whole]
      exact ⟨_, _, .noNumber blank⟩
  | cons c rest =>
      rw [after] at visible whole
      rw [← whole]
      exact exists_reads_visible blank visible rest

/-- There is something to be said about every read. -/
theorem exists_reads (read : Read) (remaining : List Char) :
    ∃ item rest, Reads read remaining item rest := by
  cases read with
  | char =>
      cases remaining with
      | nil => exact ⟨_, _, .noChar⟩
      | cons c rest => exact ⟨_, _, .char c rest⟩
  | number => exact exists_reads_number remaining
  | line => exact exists_reads_line remaining
  | peek => exact ⟨_, _, .peek remaining⟩

theorem reads_iff {read : Read} {input : Input} {item : Option Item}
    (countable : Countable input.remaining) :
    Reads read input.remaining item rest ↔
      item = (input.perform read).1 ∧ rest = (input.perform read).2.remaining := by
  have determined {given : Option Item} {later : List Char}
      (reads : Reads read input.remaining given later) :
      given = (input.perform read).1 ∧ later = (input.perform read).2.remaining := by
    obtain ⟨taken, split, performed⟩ := perform_of_reads countable reads
    rw [performed]
    exact ⟨rfl, (remaining_skip split).symm⟩
  constructor
  · exact determined
  · rintro ⟨rfl, rfl⟩
    -- The relation holds of something, and that is what reading gives.
    obtain ⟨given, later, reads⟩ := exists_reads read input.remaining
    obtain ⟨rfl, rfl⟩ := determined reads
    exact reads

/-- A read that gives something takes something, unless it is a peek. -/
theorem Reads.taken_ne_nil {read : Read} {remaining taken : List Char} {item : Option Item}
    (reads : Reads read remaining item rest) (split : remaining = taken ++ rest) (proper : read ≠ .peek)
    (gives : item.isSome) : taken ≠ [] := by
  rintro rfl
  have lengths := congrArg List.length split
  cases reads with
  | char | line | other =>
      simp only [List.length_append, List.length_cons, List.length_nil] at lengths
      omega
  | lastLine unbroken nonempty => exact nonempty split
  | number blank signed run valued =>
      have positive := List.length_pos_iff.2 run.nonempty
      simp only [List.length_append, List.length_nil] at lengths
      omega
  | noChar | noLine | noNumber => cases gives
  | peek => exact proper rfl

theorem Reads.eq_none_iff {read : Read} {remaining : List Char} {item : Option Item}
    (reads : Reads read remaining item rest) : item = none ↔ Spent read remaining := by
  cases reads with
  | char | noChar | line | noLine | peek => simp [Spent]
  | lastLine unbroken nonempty => simp [Spent, nonempty]
  | noNumber blank => exact iff_of_true rfl blank
  | @other blanks _ c blank visible noDigit noSign =>
      refine iff_of_false (by simp) fun spent => ?_
      have blankToo := spent c (by simp)
      rw [visible] at blankToo
      cases blankToo
  | @number blanks sign digits _ _ _ blank signed run valued =>
      refine iff_of_false (by simp) fun spent => ?_
      obtain ⟨first, more, rfl, digit⟩ := run.exists_cons
      have blankToo := spent first (by simp)
      rw [not_isBlank_of_isDigit digit] at blankToo
      cases blankToo

/-- The position in a text is where its remaining part begins. -/
structure Tracks (text : List Char) (input : Input) : Prop where
  remaining : input.remaining = text.drop input.position
  within : input.position ≤ text.length

section Tracks

variable {text : List Char} {input : Input} (countable : Countable text) (tracks : Tracks text input)

include tracks in
theorem Tracks.skip {taken : List Char} (split : input.remaining = taken ++ rest) :
    Tracks text (input.skip taken.length) := by
  have lengths := congrArg List.length (tracks.remaining.symm.trans split)
  rw [List.length_drop, List.length_append] at lengths
  have within := tracks.within
  constructor
  · rw [Input.skip, tracks.remaining, List.drop_drop]
  · change input.position + taken.length ≤ text.length
    omega

include countable tracks

theorem Tracks.countable_remaining : Countable input.remaining := by
  intro digits infixed
  apply countable digits (infixed.trans _)
  rw [tracks.remaining]
  exact (List.drop_suffix _ _).isInfix

/-- A read passes from the front of what remains, and something if it gives something; a peek passes
nothing. -/
theorem Tracks.perform (read : Read) :
    let next := (input.perform read).2
    Reads read input.remaining (input.perform read).1 next.remaining ∧ Tracks text next ∧
      input.position ≤ next.position ∧
      (read ≠ .peek → (input.perform read).1.isSome → input.position < next.position) := by
  have countable := tracks.countable_remaining countable
  obtain ⟨item, rest, reads⟩ := exists_reads read input.remaining
  obtain ⟨taken, split, performed⟩ := perform_of_reads countable reads
  have progress := reads.taken_ne_nil split
  rw [performed]
  refine ⟨(remaining_skip split).symm ▸ reads, tracks.skip split, Nat.le_add_right _ _, ?_⟩
  intro proper gives
  exact Nat.lt_add_of_pos_right (List.length_pos_iff.2 (progress proper gives))

theorem Tracks.after (reads : List Read) : Tracks text (input.after reads) := by
  induction reads generalizing input with
  | nil => exact tracks
  | cons read reads inductionHypothesis =>
      exact inductionHypothesis (tracks.perform countable read).2.1

/-- Every answer passes a character at least. -/
theorem Tracks.answers_le (reads : List Read) :
    input.position + input.answers reads ≤ (input.after reads).position := by
  induction reads generalizing input with
  | nil => exact Nat.le_refl _
  | cons read reads inductionHypothesis =>
      obtain ⟨_, next, forward, progress⟩ := tracks.perform countable read
      have later := inductionHypothesis next
      change _ + (_ + _) ≤ ((input.perform read).2.after reads).position
      split
      · rename_i answered
        have further := progress answered.1 answered.2
        omega
      · omega

end Tracks

/-- The input is read from front to back, as long as digits in a row can be counted. After any reads, what
remains is the end of the text behind the position. The next read gives and leaves what the relation says
and nothing else; it never goes back or past the end, a peek stays where it is, and what gives something
goes on. It gives nothing exactly if nothing is left for it, so that no more reads are answered than there
are characters. -/
theorem reads_go_through_text (text : String) (countable : Countable text.toList) (reads : List Read)
    (read : Read) :
    let input := (ofString text).after reads
    let item := (input.perform read).1
    let next := (input.perform read).2
    input.remaining = text.toList.drop input.position ∧
      input.position ≤ next.position ∧ next.position ≤ text.length ∧
      (read = .peek → next = input) ∧
      (read ≠ .peek → item.isSome → input.position < next.position) ∧
      (item = none ↔ Spent read input.remaining) ∧
      (∀ given rest, Reads read input.remaining given rest ↔ given = item ∧ rest = next.remaining) ∧
      (ofString text).answers reads ≤ text.length := by
  intro input item next
  have begins : Tracks text.toList (ofString text) := ⟨rfl, Nat.zero_le _⟩
  have tracks : Tracks text.toList input := begins.after countable reads
  obtain ⟨performed, onward, forward, progress⟩ := tracks.perform countable read
  have answered : 0 + (ofString text).answers reads ≤ input.position := begins.answers_le countable reads
  have within := tracks.within
  have nextWithin := onward.within
  rw [String.length_toList] at within nextWithin
  refine ⟨tracks.remaining, forward, nextWithin, ?_, progress, performed.eq_none_iff, ?_, by omega⟩
  · intro peeks
    cases peeks
    rfl
  · intro given rest
    exact reads_iff (tracks.countable_remaining countable)

theorem signed_number_is_read_behind_blank :
    Countable " +7x".toList ∧ Reads .number " +7x".toList (some (.number 7)) ['x'] := by
  have countable : Countable " +7x".toList := countable_of_length_lt (by decide)
  obtain ⟨_, _, _, _, _, _, iff, _⟩ := reads_go_through_text " +7x" countable [.peek] .number
  exact ⟨countable, (iff _ _).2 (by decide)⟩

/-- So many digits that the count comes back to zero are taken for none, and a character too many is
passed. -/
theorem perform_of_uncounted {count : Nat} (positive : 0 < count) (wraps : Int32.ofNat count = 0) :
    (ofString (String.ofList (List.replicate count '1'))).perform .number =
      (some (.number 0), ⟨[], count + 1⟩) := by
  let input := ofString (String.ofList (List.replicate count '1'))
  have split : input.remaining = List.replicate count '1' ++ [] := by
    simp [input, ofString]
  have unsigned : input.remaining = [] ++ ([] ++ (List.replicate count '1' ++ [])) := split
  have run : DigitRun (List.replicate count '1') [] := by
    refine ⟨by simp; omega, ?_, rfl⟩
    intro c member
    rw [List.eq_of_mem_replicate member]
    rfl
  have none : countDigits (List.replicate count '1') = 0 := by
    rw [countDigits_eq, List.length_replicate, wraps]
  have read : input.readNumber = (some 0, input.skip (count + 1)) := by
    rw [readNumber_of_sign unsigned (by simp) .absent run]
    change (some (input.readDigits false).1, (input.readDigits false).2) = _
    rw [readDigits_of_run split run, if_pos none, List.length_replicate]
  change (input.readNumber.1.map Item.number, input.readNumber.2) = _
  rw [read]
  simp [skip, input, ofString]

/-- A number of `2 ^ 32` digits is read past the end. -/
theorem not_every_read_stays_within_text :
    ¬ ∀ (text : String) (read : Read), ((ofString text).perform read).2.position ≤ text.length := by
  intro within
  have passed (count : Nat) (positive : 0 < count) (wraps : Int32.ofNat count = 0) : False := by
    have within := within (String.ofList (List.replicate count '1')) .number
    rw [perform_of_uncounted positive wraps, String.length_ofList, List.length_replicate] at within
    exact Nat.not_succ_le_self count within
  exact passed 4294967296 (by decide) (by decide)

example :
    (ofString "\u3000-99999999999999999999x").perform .number =
      (some (.number (-9223372036854775807)), ⟨['x'], 22⟩) := by
  decide +kernel

end Esoterica.Input
