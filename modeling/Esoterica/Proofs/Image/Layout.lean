import Esoterica.Image.Ppm
import Esoterica.Proofs.Loading

/-!
How the numbers of a pixmap may be laid out: as decimal numerals with blanks and comments in front of each.
However they are laid out, the reader finds them.
-/

namespace Esoterica.Image.Ppm

/-- Blanks and comments in a row, each comment with the linefeed that ends it. -/
inductive Space : List UInt8 → Prop where
  | nil : Space []
  | blank {byte : UInt8} {rest : List UInt8} (blank : isSpace byte) (others : Space rest) :
      Space (byte :: rest)
  | comment {text rest : List UInt8} (oneLine : linefeed ∉ text) (others : Space rest) :
      Space (commentMark :: text ++ linefeed :: rest)

/-- What separates two tokens: blanks and comments, but at least one of them. -/
structure Gap (bytes : List UInt8) : Prop where
  space : Space bytes
  nonempty : bytes ≠ []

/-- These decimal digits spell a number. Leading zeros are free. -/
structure Digits (value : Nat) (digits : List Char) : Prop where
  nonempty : digits ≠ []
  decimal : ∀ c ∈ digits, c.isDigit
  valueEq : Nat.ofDigitChars 10 digits 0 = value

/-- A numeral is a row of digits; one plus sign may stand in front. -/
inductive Numeral (value : Nat) (text : String) : Prop where
  | plain (spelled : Digits value text.toList)
  | signed {digits : List Char} (front : text.toList = '+' :: digits) (spelled : Digits value digits)

/-- Numbers one after another, each with a gap in front of it. -/
inductive Numbers : List Nat → List UInt8 → Prop where
  | nil : Numbers [] []
  | cons {value : Nat} {values : List Nat} {gap rest : List UInt8} {text : String}
      (gapped : Gap gap) (numeral : Numeral value text) (others : Numbers values rest) :
      Numbers (value :: values) (gap ++ codes text ++ rest)

section Space

variable {gap text rest : List UInt8}

theorem skipSpace_comment (oneLine : linefeed ∉ text) :
    skipSpace true (text ++ linefeed :: rest) = skipSpace false rest := by
  induction text with
  | nil => rfl
  | cons byte text inductionHypothesis =>
      rw [List.mem_cons, not_or] at oneLine
      have goesOn : (byte != linefeed) = true := bne_iff_ne.2 (Ne.symm oneLine.1)
      rw [List.cons_append, skipSpace, if_pos rfl, goesOn]
      exact inductionHypothesis oneLine.2

theorem isSpace_ne_commentMark {byte : UInt8} (blank : isSpace byte) :
    (byte == commentMark) = false := by
  rw [beq_eq_false_iff_ne]
  rintro rfl
  cases blank

/-- All blanks and comments are skipped. -/
theorem skipSpace_space (space : Space gap) :
    skipSpace false (gap ++ rest) = skipSpace false rest := by
  induction space with
  | nil => rfl
  | blank blank _ inductionHypothesis =>
      simp only [List.cons_append, skipSpace, Bool.false_eq_true, if_false, blank, if_true,
        isSpace_ne_commentMark blank]
      exact inductionHypothesis
  | comment oneLine _ inductionHypothesis =>
      simp only [List.cons_append, List.append_assoc, skipSpace, Bool.false_eq_true, if_false,
        beq_self_eq_true, if_true]
      rw [skipSpace_comment oneLine]
      exact inductionHypothesis

/-- Nothing is skipped before a token. -/
theorem skipSpace_token {byte : UInt8} (token : isTokenByte byte) :
    skipSpace false (byte :: rest) = byte :: rest := by
  rw [isTokenByte, Bool.and_eq_true, Bool.not_eq_true', bne_iff_ne] at token
  simp [skipSpace, token.1, token.2]

/-- A token ends before these bytes. -/
def Stops (bytes : List UInt8) : Prop :=
  ∀ byte, bytes.head? = some byte → isTokenByte byte = false

theorem stops_of_blank {byte : UInt8} (blank : isSpace byte) : Stops (byte :: rest) := by
  rintro other ⟨⟩
  simp [isTokenByte, blank]

theorem Gap.stops (gapped : Gap gap) : Stops (gap ++ rest) := by
  obtain ⟨space, nonempty⟩ := gapped
  cases space with
  | nil => exact (nonempty rfl).elim
  | blank blank _ => exact stops_of_blank blank
  | comment _ _ =>
      rintro other ⟨⟩
      rfl

theorem Numbers.stops {values : List Nat} {bytes : List UInt8} (numbers : Numbers values bytes)
    (stops : Stops rest) : Stops (bytes ++ rest) := by
  cases numbers with
  | nil => exact stops
  | cons gapped _ _ =>
      rw [List.append_assoc, List.append_assoc]
      exact gapped.stops

end Space

section Tokens

/-- A character that may be part of a token: one of ASCII, but no blank and no `#`. -/
def IsPlain (c : Char) : Prop :=
  c.toNat < 128 ∧ isTokenByte (.ofNat c.toNat)

instance (c : Char) : Decidable (IsPlain c) :=
  inferInstanceAs (Decidable (_ ∧ _))

theorem isPlain_of_isDigit {c : Char} (digit : c.isDigit) : IsPlain c := by
  have codes : ∀ code < 58, 48 ≤ code → isTokenByte (.ofNat code) = true := by decide
  obtain ⟨lower, upper⟩ := Char.isDigit_iff_toNat.1 digit
  have least : '0'.toNat = 48 := rfl
  have greatest : '9'.toNat = 57 := rfl
  exact ⟨by omega, codes c.toNat (by omega) (by omega)⟩

theorem isPlain_of_all {chars : List Char} (all : chars.all fun c => decide (IsPlain c)) :
    ∀ c ∈ chars, IsPlain c := by
  intro c member
  exact of_decide_eq_true (List.all_eq_true.1 all c member)

/-- ASCII codes are read back as text. -/
theorem pieces_ascii {chars : List Char} (ascii : ∀ c ∈ chars, c.toNat < 128) :
    Text.Utf8.pieces none (chars.map fun c => .ofNat c.toNat) = chars.map some := by
  induction chars with
  | nil => rfl
  | cons c chars inductionHypothesis =>
      obtain ⟨small, others⟩ := List.forall_mem_cons.1 ascii
      have code : (UInt8.ofNat c.toNat).toNat = c.toNat := by
        rw [UInt8.toNat_ofNat']
        omega
      have read : Text.Utf8.readByte none c.toNat = ([some c], none) := by
        simp [Text.Utf8.readByte, Text.Utf8.startByte, small]
      simp only [List.map_cons, Text.Utf8.pieces, code, read, inductionHypothesis others,
        List.singleton_append]

theorem decodeLossy_codes {text : String} (plain : ∀ c ∈ text.toList, IsPlain c) :
    Text.Utf8.decodeLossy (codes text) = text := by
  rw [Text.Utf8.decodeLossy, codes, pieces_ascii fun c member => (plain c member).1, List.map_map]
  have unchanged : ((·.getD (Char.ofNat 0xFFFD)) ∘ some : Char → Char) = id := rfl
  rw [unchanged, List.map_id, String.ofList_toList]

theorem length_codes (text : String) : (codes text).length = text.toList.length :=
  List.length_map _

/-- A token is read up to its end, whatever space stands in front of it. -/
theorem readToken_of_plain {gap rest : List UInt8} {text : String} (space : Space gap)
    (nonempty : text.toList ≠ []) (plain : ∀ c ∈ text.toList, IsPlain c) (stops : Stops rest) :
    readToken (gap ++ codes text ++ rest) = .ok (text, rest) := by
  have token : ∀ byte ∈ codes text, isTokenByte byte = true := by
    intro byte member
    obtain ⟨c, listed, rfl⟩ := List.mem_map.1 member
    exact (plain c listed).2
  have nothing : codes text ≠ [] := by
    rw [← List.length_pos_iff, length_codes]
    exact List.length_pos_iff.2 nonempty
  have skipped : skipSpace false (gap ++ codes text ++ rest) = codes text ++ rest := by
    rw [List.append_assoc, skipSpace_space space]
    obtain ⟨first, others, equal⟩ := List.exists_cons_of_ne_nil nothing
    rw [equal, List.cons_append]
    exact skipSpace_token (token first (by rw [equal]; exact List.mem_cons_self))
  have taken : (codes text ++ rest).takeWhile isTokenByte = codes text := by
    rw [List.takeWhile_append_of_pos token]
    cases rest with
    | nil => simp
    | cons byte rest => simp [stops byte rfl]
  have dropped : (codes text ++ rest).dropWhile isTokenByte = rest := by
    rw [List.dropWhile_append_of_pos token]
    cases rest with
    | nil => rfl
    | cons byte rest => simp [stops byte rfl]
  simp only [readToken, skipped, taken, dropped, decodeLossy_codes plain]
  rw [if_neg]
  simpa using nothing

end Tokens

section Numbers

variable {value : Nat} {values : List Nat} {text : String} {gap rest bytes : List UInt8}

theorem Digits.parse {digits : List Char} (spelled : Digits value digits) :
    Word.digits? digits = some value := by
  have some := List.isEmpty_eq_false_iff.2 spelled.nonempty
  have all := List.all_eq_true.2 spelled.decimal
  simp [Word.digits?, some, all, spelled.valueEq]

/-- A number below the bound is read from every numeral. -/
theorem Numeral.parse (numeral : Numeral value text) {bound : Nat} (fits : value < bound) :
    Word.parseNat? bound text.toList = some value := by
  cases numeral with
  | plain spelled =>
      unfold Word.parseNat?
      split
      · -- A plus sign is no digit.
        rename_i others equal
        have digit := spelled.decimal '+' (by rw [equal]; exact List.mem_cons_self)
        cases digit
      · simp [spelled.parse, fits]
  | signed front spelled => simp [Word.parseNat?, front, spelled.parse, fits]

theorem Numeral.nonempty (numeral : Numeral value text) : text.toList ≠ [] := by
  cases numeral with
  | plain spelled => exact spelled.nonempty
  | signed front _ =>
      rw [front]
      exact List.cons_ne_nil _ _

theorem Numeral.plain_chars (numeral : Numeral value text) : ∀ c ∈ text.toList, IsPlain c := by
  cases numeral with
  | plain spelled =>
      intro c member
      exact isPlain_of_isDigit (spelled.decimal c member)
  | signed front spelled =>
      intro c member
      rw [front] at member
      rcases List.mem_cons.1 member with rfl | digit
      · decide
      · exact isPlain_of_isDigit (spelled.decimal c digit)

/-- The decimal notation of a number is a numeral. -/
theorem numeral_toString (value : Nat) : Numeral value (toString value) := by
  have digits : (toString value).toList = Nat.toDigits 10 value := Nat.toList_repr
  apply Numeral.plain
  rw [digits]
  exact ⟨Nat.toDigits_ne_nil, fun c => Nat.isDigit_of_mem_toDigits (by decide) (by decide),
    Nat.ofDigitChars_ten_toDigits⟩

/-- The first number is read, and the others are left as they were laid out. -/
theorem Numbers.readNumber (numbers : Numbers (value :: values) bytes) (fits : value < UInt64.size)
    (stops : Stops rest) :
    ∃ after, Numbers values after ∧ readNumber (bytes ++ rest) = .ok (value, after ++ rest) := by
  cases numbers with
  | @cons _ _ gap after text gapped numeral others =>
      have read := readToken_of_plain gapped.space numeral.nonempty numeral.plain_chars
        (others.stops stops)
      rw [← List.append_assoc] at read
      refine ⟨after, others, ?_⟩
      simp only [Ppm.readNumber, read, bind, Except.bind, numeral.parse fits]
      rfl

theorem Numbers.eq_nil (numbers : Numbers [] bytes) : bytes = [] := by
  cases numbers
  rfl

/-- Numbers are read one after another, however they are laid out. -/
theorem Numbers.readNumbers (numbers : Numbers values bytes)
    (fits : ∀ value ∈ values, value < UInt64.size) (stops : Stops rest) :
    readNumbers values.length (bytes ++ rest) = .ok values := by
  induction values generalizing bytes with
  | nil => rfl
  | cons value values inductionHypothesis =>
      obtain ⟨first, more⟩ := List.forall_mem_cons.1 fits
      obtain ⟨after, others, read⟩ := numbers.readNumber first stops
      simp only [List.length_cons, Ppm.readNumbers, read, bind, Except.bind,
        inductionHypothesis others more]
      rfl

/-- A number takes at least a byte. -/
theorem Numbers.length_le (numbers : Numbers values bytes) : values.length ≤ bytes.length := by
  induction numbers with
  | nil => exact Nat.le_refl _
  | cons gapped _ _ inductionHypothesis =>
      have positive := List.length_pos_iff.2 gapped.nonempty
      simp only [List.length_cons, List.length_append]
      omega

end Numbers

end Esoterica.Image.Ppm
