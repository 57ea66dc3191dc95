import Esoterica.Proofs.Loading
import Esoterica.Proofs.Whitespace.Trie
import Esoterica.Whitespace.Program

/-!
How instructions are spelled. An instruction is a command of two to four symbols with what belongs to
it: nothing, a number or a label. Reading an instruction takes one spelling of it, and every spelling
can be read.
-/

namespace Esoterica.Whitespace

/-- The symbol for a binary digit, and for a mark of a label. -/
def Symbol.ofBool (tab : Bool) : Symbol :=
  if tab then .tab else .space

/-- Blanks and tabs up to a linefeed. -/
def row (marks : List Bool) : List Symbol :=
  marks.map Symbol.ofBool ++ [.linefeed]

/-- The number that binary digits spell behind a number, the highest digit first. -/
def binaryFrom (value : Nat) (digits : List Bool) : Nat :=
  digits.foldl (fun value digit => 2 * value + digit.toNat) value

/-- What follows the command of an instruction. -/
inductive Argument where
  | none
  | number (value : Word)
  | label (label : Label)
deriving DecidableEq, Repr

/-- The spellings of what follows a command. A number is a sign, digits and a linefeed, where leading
zeros are free and there may be no digit at all; zero may also be a linefeed alone. A label is its
marks and a linefeed. -/
inductive Argument.Spelled : Argument → List Symbol → Prop where
  | none : Spelled .none []
  | zero : Spelled (.number 0) [.linefeed]
  | number {negative : Bool} {digits : List Bool} {value : Word}
      (valueEq : value.toInt =
        if negative then -(binaryFrom 0 digits : Int) else (binaryFrom 0 digits : Int)) :
      Spelled (.number value) (.ofBool negative :: row digits)
  | label {label : Label} : Spelled (.label label) (row label.marks)

namespace Op

/-- The command of an instruction. -/
def command : Op → List Symbol
  | push _ => [.space, .space]
  | dup => [.space, .linefeed, .space]
  | copy _ => [.space, .tab, .space]
  | swap => [.space, .linefeed, .tab]
  | discard => [.space, .linefeed, .linefeed]
  | slide _ => [.space, .tab, .linefeed]
  | add => [.tab, .space, .space, .space]
  | sub => [.tab, .space, .space, .tab]
  | mul => [.tab, .space, .space, .linefeed]
  | div => [.tab, .space, .tab, .space]
  | mod => [.tab, .space, .tab, .tab]
  | store => [.tab, .tab, .space]
  | retrieve => [.tab, .tab, .tab]
  | mark _ => [.linefeed, .space, .space]
  | call _ => [.linefeed, .space, .tab]
  | jump _ => [.linefeed, .space, .linefeed]
  | jumpZero _ => [.linefeed, .tab, .space]
  | jumpNegative _ => [.linefeed, .tab, .tab]
  | ret => [.linefeed, .tab, .linefeed]
  | exit => [.linefeed, .linefeed, .linefeed]
  | outChar => [.tab, .linefeed, .space, .space]
  | outNum => [.tab, .linefeed, .space, .tab]
  | readChar => [.tab, .linefeed, .tab, .space]
  | readNum => [.tab, .linefeed, .tab, .tab]

/-- What an instruction has beside its command. -/
def argument : Op → Argument
  | push value | copy value | slide value => .number value
  | mark label | call label | jump label | jumpZero label | jumpNegative label => .label label
  | _ => .none

/-- The spellings of an instruction. -/
def Spelled (op : Op) (symbols : List Symbol) : Prop :=
  ∃ argument, op.argument.Spelled argument ∧ symbols = op.command ++ argument

/-- The number of an instruction has less than 64 binary digits. -/
def Fits (op : Op) : Prop :=
  ∀ value, op.argument = .number value → value.toInt.natAbs < 9223372036854775808

end Op

/-- The first tokens have these symbols, and the others are left. -/
def Takes (tokens : List Token) (symbols : List Symbol) (rest : List Token) : Prop :=
  ∃ used, used.map Prod.fst = symbols ∧ tokens = used ++ rest

section Takes

variable {tokens rest : List Token} {symbols more : List Symbol}

theorem takes_nil_iff : Takes tokens [] rest ↔ tokens = rest := by
  simp [Takes]

theorem takes_cons_iff {symbol : Symbol} :
    Takes tokens (symbol :: symbols) rest ↔
      ∃ position tail, tokens = (symbol, position) :: tail ∧ Takes tail symbols rest := by
  constructor
  · rintro ⟨used, spelled, rfl⟩
    obtain ⟨⟨first, position⟩, tail, rfl, rfl, others⟩ := List.map_eq_cons_iff.mp spelled
    exact ⟨position, tail ++ rest, rfl, tail, others, rfl⟩
  · rintro ⟨position, tail, rfl, used, rfl, rfl⟩
    exact ⟨(symbol, position) :: used, rfl, rfl⟩

theorem takes_append_iff :
    Takes tokens (symbols ++ more) rest ↔
      ∃ middle, Takes tokens symbols middle ∧ Takes middle more rest := by
  constructor
  · rintro ⟨used, spelled, rfl⟩
    obtain ⟨first, second, rfl, rfl, rfl⟩ := List.map_eq_append_iff.mp spelled
    exact ⟨second ++ rest, ⟨first, rfl, by simp⟩, ⟨second, rfl, rfl⟩⟩
  · rintro ⟨middle, ⟨first, rfl, rfl⟩, ⟨second, rfl, rfl⟩⟩
    exact ⟨first ++ second, by simp, by simp⟩

theorem not_nil_takes_cons {symbol : Symbol} : ¬ Takes [] (symbol :: symbols) rest := by
  simp [takes_cons_iff]

theorem token_takes_cons_iff {symbol first : Symbol} {position : Nat} :
    Takes ((first, position) :: tokens) (symbol :: symbols) rest ↔
      first = symbol ∧ Takes tokens symbols rest := by
  rw [takes_cons_iff]
  constructor
  · rintro ⟨_, _, equal, taken⟩
    simp only [List.cons.injEq, Prod.mk.injEq] at equal
    obtain ⟨⟨rfl, rfl⟩, rfl⟩ := equal
    exact ⟨rfl, taken⟩
  · rintro ⟨rfl, taken⟩
    exact ⟨position, tokens, rfl, taken⟩

end Takes

theorem Symbol.linefeed_or_ofBool (symbol : Symbol) :
    symbol = .linefeed ∨ ∃ tab, symbol = .ofBool tab := by
  cases symbol with
  | linefeed => exact .inl rfl
  | space => exact .inr ⟨false, rfl⟩
  | tab => exact .inr ⟨true, rfl⟩

@[simp] theorem Symbol.ofBool_ne_linefeed (tab : Bool) : Symbol.ofBool tab ≠ .linefeed := by
  cases tab <;> simp [Symbol.ofBool]

@[simp] theorem Symbol.ofBool_inj {first second : Bool} :
    Symbol.ofBool first = .ofBool second ↔ first = second := by
  cases first <;> cases second <;> simp [Symbol.ofBool]

section Row

variable {tokens rest : List Token} {position : Nat} {marks : List Bool}

theorem not_nil_takes_row : ¬ Takes [] (row marks) rest := by
  cases marks <;> exact not_nil_takes_cons

theorem linefeed_takes_row_iff :
    Takes ((.linefeed, position) :: tokens) (row marks) rest ↔ marks = [] ∧ tokens = rest := by
  cases marks with
  | nil => simp [row, token_takes_cons_iff, takes_nil_iff]
  | cons mark marks =>
      simp only [row, List.map_cons, List.cons_append, token_takes_cons_iff, reduceCtorEq, false_and,
        iff_false, not_and]
      exact fun equal => absurd equal.symm (Symbol.ofBool_ne_linefeed mark)

theorem ofBool_takes_row_iff {tab : Bool} :
    Takes ((.ofBool tab, position) :: tokens) (row marks) rest ↔
      ∃ others, marks = tab :: others ∧ Takes tokens (row others) rest := by
  cases marks with
  | nil => simp [row, token_takes_cons_iff]
  | cons mark marks =>
      simp only [row, List.map_cons, List.cons_append, token_takes_cons_iff, Symbol.ofBool_inj,
        List.cons.injEq]
      constructor
      · rintro ⟨rfl, taken⟩
        exact ⟨marks, ⟨rfl, rfl⟩, taken⟩
      · rintro ⟨_, ⟨rfl, rfl⟩, taken⟩
        exact ⟨rfl, taken⟩

end Row

/-- More digits never make a number smaller. -/
theorem le_binaryFrom (value : Nat) (digits : List Bool) : value ≤ binaryFrom value digits := by
  induction digits generalizing value with
  | nil => exact Nat.le_refl value
  | cons digit digits inductionHypothesis =>
      have := inductionHypothesis (2 * value + digit.toNat)
      rw [binaryFrom, List.foldl_cons, ← binaryFrom]
      omega

theorem readDigits_ofBool (start : Nat) (negative : Bool) (magnitude : Nat) (digit : Bool)
    (position : Nat) (tokens : List Token) :
    readDigits start negative magnitude ((.ofBool digit, position) :: tokens) =
      if Word.greatest < 2 * magnitude + digit.toNat then
        .error (loadFault (.invalidNumber position "does not fit in 64 bits"))
      else readDigits start negative (2 * magnitude + digit.toNat) tokens := by
  cases digit <;> rfl

/-- Digits are read up to a linefeed as long as the number fits. -/
theorem readDigits_eq_ok_iff {start : Nat} {negative : Bool} {magnitude : Nat}
    {tokens rest : List Token} {value : Word} (small : magnitude ≤ Word.greatest) :
    readDigits start negative magnitude tokens = .ok (value, rest) ↔
      ∃ digits, Takes tokens (row digits) rest ∧ binaryFrom magnitude digits ≤ Word.greatest ∧
        value = Int64.ofInt (if negative then -(binaryFrom magnitude digits : Int)
          else binaryFrom magnitude digits) := by
  induction tokens generalizing magnitude with
  | nil => simp [readDigits, not_nil_takes_row]
  | cons token tokens inductionHypothesis =>
      obtain ⟨symbol, position⟩ := token
      obtain rfl | ⟨digit, rfl⟩ := symbol.linefeed_or_ofBool
      · simp only [readDigits, Except.ok.injEq, Prod.mk.injEq, linefeed_takes_row_iff]
        constructor
        · rintro ⟨rfl, rfl⟩
          exact ⟨[], ⟨rfl, rfl⟩, small, rfl⟩
        · rintro ⟨_, ⟨rfl, rfl⟩, -, rfl⟩
          exact ⟨rfl, rfl⟩
      · simp only [readDigits_ofBool, ofBool_takes_row_iff]
        split
        · -- The number is too large with this digit, and stays so with every digit more.
          rename_i large
          simp only [reduceCtorEq, false_iff]
          rintro ⟨_, ⟨digits, rfl, -⟩, fits, -⟩
          have grown := le_binaryFrom (2 * magnitude + digit.toNat) digits
          rw [binaryFrom, List.foldl_cons, ← binaryFrom] at fits
          omega
        · rename_i fitting
          rw [inductionHypothesis (by omega)]
          constructor
          · rintro ⟨digits, taken, fits, rfl⟩
            exact ⟨digit :: digits, ⟨digits, rfl, taken⟩, fits, rfl⟩
          · rintro ⟨_, ⟨digits, rfl, taken⟩, fits, rfl⟩
            exact ⟨digits, taken, fits, rfl⟩

/-- A magnitude with a sign, as a number of the machine. -/
theorem signed_eq_iff {negative : Bool} {magnitude : Nat} {value : Word} :
    (magnitude ≤ Word.greatest ∧
        value = Int64.ofInt (if negative then -(magnitude : Int) else magnitude)) ↔
      value.toInt = (if negative then -(magnitude : Int) else magnitude) ∧
        value.toInt.natAbs < 9223372036854775808 := by
  have size : (if negative then -(magnitude : Int) else magnitude).natAbs = magnitude := by
    cases negative <;> simp
  unfold Word.greatest
  constructor
  · rintro ⟨small, rfl⟩
    have kept : (Int64.ofInt (if negative then -(magnitude : Int) else magnitude)).toInt =
        (if negative then -(magnitude : Int) else magnitude) :=
      Int64.toInt_ofInt_of_le (by omega) (by omega)
    rw [kept, size]
    omega
  · rintro ⟨equal, small⟩
    rw [equal, size] at small
    exact ⟨by omega, by rw [← equal, Int64.ofInt_toInt]⟩

theorem readNumber_ofBool (start : Nat) (negative : Bool) (position : Nat) (tokens : List Token) :
    readNumber start ((.ofBool negative, position) :: tokens) =
      readDigits start negative 0 tokens := by
  cases negative <;> rfl

/-- A number is read from its spellings, as long as it fits whatever its sign. -/
theorem readNumber_eq_ok_iff {start : Nat} {tokens rest : List Token} {value : Word} :
    readNumber start tokens = .ok (value, rest) ↔
      (∃ symbols, (Argument.number value).Spelled symbols ∧ Takes tokens symbols rest) ∧
        value.toInt.natAbs < 9223372036854775808 := by
  cases tokens with
  | nil =>
      simp only [readNumber, reduceCtorEq, false_iff]
      rintro ⟨⟨symbols, spelled, taken⟩, -⟩
      cases spelled <;> exact not_nil_takes_cons taken
  | cons token tokens =>
      obtain ⟨symbol, position⟩ := token
      obtain rfl | ⟨negative, rfl⟩ := symbol.linefeed_or_ofBool
      · simp only [readNumber, Except.ok.injEq, Prod.mk.injEq]
        constructor
        · rintro ⟨rfl, rfl⟩
          exact ⟨⟨[.linefeed], .zero, [(.linefeed, position)], rfl, rfl⟩, by decide⟩
        · rintro ⟨⟨symbols, spelled, taken⟩, -⟩
          cases spelled with
          | zero =>
              rw [token_takes_cons_iff, takes_nil_iff] at taken
              exact ⟨rfl, taken.2⟩
          | number valueEq =>
              rw [token_takes_cons_iff] at taken
              exact absurd taken.1.symm (Symbol.ofBool_ne_linefeed _)
      · rw [readNumber_ofBool, readDigits_eq_ok_iff (by decide)]
        simp only [signed_eq_iff]
        constructor
        · rintro ⟨digits, taken, valueEq, small⟩
          exact ⟨⟨_, .number valueEq, token_takes_cons_iff.mpr ⟨rfl, taken⟩⟩, small⟩
        · rintro ⟨⟨symbols, spelled, taken⟩, small⟩
          cases spelled with
          | zero =>
              rw [token_takes_cons_iff] at taken
              exact absurd taken.1 (Symbol.ofBool_ne_linefeed negative)
          | number valueEq =>
              rw [token_takes_cons_iff, Symbol.ofBool_inj] at taken
              obtain ⟨rfl, taken⟩ := taken
              exact ⟨_, taken, valueEq, small⟩

theorem readLabel_ofBool (start : Nat) (tab : Bool) (position : Nat) (tokens : List Token) :
    readLabel start ((.ofBool tab, position) :: tokens) =
      (readLabel start tokens).map fun (label, rest) => (⟨tab :: label.marks⟩, rest) := by
  cases tab <;> cases read : readLabel start tokens <;> simp [readLabel, Symbol.ofBool, read, Except.map]

/-- A label is read from its one spelling. -/
theorem readLabel_eq_ok_iff {start : Nat} {tokens rest : List Token} {label : Label} :
    readLabel start tokens = .ok (label, rest) ↔ Takes tokens (row label.marks) rest := by
  induction tokens generalizing label with
  | nil => simp [readLabel, not_nil_takes_row]
  | cons token tokens inductionHypothesis =>
      obtain ⟨symbol, position⟩ := token
      obtain ⟨marks⟩ := label
      obtain rfl | ⟨tab, rfl⟩ := symbol.linefeed_or_ofBool
      · simp only [readLabel, Except.ok.injEq, Prod.mk.injEq, linefeed_takes_row_iff, Label.mk.injEq]
        exact and_congr_left fun _ => eq_comm
      · rw [readLabel_ofBool, ofBool_takes_row_iff, map_eq_ok_iff]
        constructor
        · rintro ⟨⟨others, tail⟩, read, equal⟩
          simp only [Prod.mk.injEq, Label.mk.injEq] at equal
          obtain ⟨rfl, rfl⟩ := equal
          exact ⟨others.marks, rfl, inductionHypothesis.mp read⟩
        · rintro ⟨others, rfl, taken⟩
          exact ⟨(⟨others⟩, rest), inductionHypothesis.mpr taken, rfl⟩

theorem PrefixFree.continuing {candidates : List Spelling} (free : PrefixFree candidates)
    {symbol : Symbol} (nonempty : ∀ left ∈ continuing symbol candidates, left.symbols ≠ []) :
    PrefixFree (continuing symbol candidates) := by
  refine ⟨nonempty, ?_⟩
  rintro ⟨first, firstForm⟩ firstMember ⟨second, secondForm⟩ secondMember continued
  have equal := free.unique _ (mem_continuing_iff.mp firstMember) _
    (mem_continuing_iff.mp secondMember) (List.cons_prefix_cons.mpr ⟨rfl, continued⟩)
  simpa using equal

/-- Of spellings that do not continue each other the one is read that the tokens start with. -/
theorem readForm_eq_ok_iff {start : Nat} {candidates : List Spelling} {tokens rest : List Token}
    {form : Form} (free : PrefixFree candidates) :
    readForm start candidates tokens = .ok (form, rest) ↔
      ∃ candidate ∈ candidates, candidate.form = form ∧ Takes tokens candidate.symbols rest := by
  induction tokens generalizing candidates with
  | nil =>
      simp only [readForm, reduceCtorEq, false_iff]
      rintro ⟨⟨_ | ⟨first, symbols⟩, form⟩, member, -, taken⟩
      · exact free.nonempty _ member rfl
      · exact not_nil_takes_cons taken
  | cons token tokens inductionHypothesis =>
      obtain ⟨symbol, position⟩ := token
      -- What the tokens start with goes on with the first symbol, and the next tokens with its rest.
      have advance : (∃ candidate ∈ candidates, candidate.form = form ∧
            Takes ((symbol, position) :: tokens) candidate.symbols rest) ↔
          ∃ left ∈ continuing symbol candidates, left.form = form ∧
            Takes tokens left.symbols rest := by
        constructor
        · rintro ⟨⟨_ | ⟨first, symbols⟩, form⟩, member, rfl, taken⟩
          · exact absurd rfl (free.nonempty _ member)
          · obtain ⟨rfl, later⟩ := token_takes_cons_iff.mp taken
            exact ⟨⟨symbols, form⟩, mem_continuing_iff.mpr member, rfl, later⟩
        · rintro ⟨left, member, rfl, taken⟩
          exact ⟨_, mem_continuing_iff.mp member, rfl, token_takes_cons_iff.mpr ⟨rfl, taken⟩⟩
      rw [advance, readForm]
      split
      · rename_i none
        simp [none]
      · rename_i first more some
        rw [← some]
        split
        · rename_i found search
          have member := List.mem_of_find?_eq_some search
          have empty : found.symbols = [] := by simpa using List.find?_some search
          simp only [Except.ok.injEq, Prod.mk.injEq]
          constructor
          · rintro ⟨rfl, rfl⟩
            exact ⟨found, member, rfl, by rw [empty, takes_nil_iff]⟩
          · rintro ⟨⟨symbols, form⟩, other, rfl, taken⟩
            have equal := free.unique _ (mem_continuing_iff.mp member) _
              (mem_continuing_iff.mp other) (by simp [empty])
            simp only [Spelling.mk.injEq, List.cons.injEq, true_and, empty] at equal
            obtain ⟨rfl, rfl⟩ := equal
            exact ⟨rfl, takes_nil_iff.mp taken⟩
        · rename_i search
          apply inductionHypothesis
          apply free.continuing
          intro left member
          have := List.find?_eq_none.mp search left member
          simpa using this

/-- The instruction that a form makes of an argument of its sort. -/
def Form.build? : Form → Argument → Option Op
  | .plain op, .none => some op
  | .number build, .number value => some (build value)
  | .label build, .label target => some (build target)
  | _, _ => none

/-- The table has every instruction under its command. -/
theorem exists_spelling (op : Op) :
    ∃ spelling ∈ spellings, spelling.symbols = op.command ∧
      spelling.form.build? op.argument = some op := by
  have entry (index : Nat) {spelling : Spelling} (found : spellings[index]? = some spelling)
      (symbols : spelling.symbols = op.command)
      (built : spelling.form.build? op.argument = some op) :
      ∃ spelling ∈ spellings, spelling.symbols = op.command ∧
        spelling.form.build? op.argument = some op :=
    ⟨spelling, List.mem_of_getElem? found, symbols, built⟩
  cases op with
  | push => exact entry 0 rfl rfl rfl
  | dup => exact entry 1 rfl rfl rfl
  | copy => exact entry 2 rfl rfl rfl
  | swap => exact entry 3 rfl rfl rfl
  | discard => exact entry 4 rfl rfl rfl
  | slide => exact entry 5 rfl rfl rfl
  | add => exact entry 6 rfl rfl rfl
  | sub => exact entry 7 rfl rfl rfl
  | mul => exact entry 8 rfl rfl rfl
  | div => exact entry 9 rfl rfl rfl
  | mod => exact entry 10 rfl rfl rfl
  | store => exact entry 11 rfl rfl rfl
  | retrieve => exact entry 12 rfl rfl rfl
  | mark => exact entry 13 rfl rfl rfl
  | call => exact entry 14 rfl rfl rfl
  | jump => exact entry 15 rfl rfl rfl
  | jumpZero => exact entry 16 rfl rfl rfl
  | jumpNegative => exact entry 17 rfl rfl rfl
  | ret => exact entry 18 rfl rfl rfl
  | exit => exact entry 19 rfl rfl rfl
  | outChar => exact entry 20 rfl rfl rfl
  | outNum => exact entry 21 rfl rfl rfl
  | readChar => exact entry 22 rfl rfl rfl
  | readNum => exact entry 23 rfl rfl rfl

/-- The table has under a command only instructions with that command. -/
theorem command_of_mem_spellings {spelling : Spelling} (member : spelling ∈ spellings)
    {argument : Argument} {op : Op} (built : spelling.form.build? argument = some op) :
    spelling.symbols = op.command ∧ op.argument = argument := by
  simp only [spellings, List.mem_cons, List.not_mem_nil, or_false] at member
  cases argument <;> rcases member with
      rfl | rfl | rfl | rfl | rfl | rfl | rfl | rfl | rfl | rfl | rfl | rfl |
      rfl | rfl | rfl | rfl | rfl | rfl | rfl | rfl | rfl | rfl | rfl | rfl <;>
    simp only [Form.build?, reduceCtorEq, Option.some.injEq] at built <;>
    subst built <;> exact ⟨rfl, rfl⟩

/-- An instruction is read from its spellings, as long as its number fits. -/
theorem readOp_eq_ok_iff {start : Nat} {tokens rest : List Token} {op : Op} :
    readOp commands start tokens = .ok (op, rest) ↔
      (∃ symbols, op.Spelled symbols ∧ Takes tokens symbols rest) ∧ op.Fits := by
  constructor
  · -- What was read is put together from the command and the argument.
    have assemble {candidate : Spelling} {argument : Argument} {symbols : List Symbol}
        {middle : List Token} (member : candidate ∈ spellings)
        (built : candidate.form.build? argument = some op) (spelled : argument.Spelled symbols)
        (first : Takes tokens candidate.symbols middle) (second : Takes middle symbols rest) :
        op.argument = argument ∧ ∃ symbols, op.Spelled symbols ∧ Takes tokens symbols rest := by
      obtain ⟨command, argumentEq⟩ := command_of_mem_spellings member built
      refine ⟨argumentEq, candidate.symbols ++ symbols, ⟨symbols, ?_, by rw [command]⟩, ?_⟩
      · rwa [argumentEq]
      · exact takes_append_iff.mpr ⟨middle, first, second⟩
    rw [readOp, walk_commands]
    intro read
    split at read
    · simp at read
    · rename_i built left readForm
      simp only [Except.ok.injEq, Prod.mk.injEq] at read
      obtain ⟨rfl, rfl⟩ := read
      obtain ⟨candidate, member, form, taken⟩ := (readForm_eq_ok_iff spellings_prefixFree).mp readForm
      obtain ⟨argument, spelled⟩ :=
        assemble member (by rw [form]; rfl) .none taken (takes_nil_iff.mpr rfl)
      exact ⟨spelled, fun value equal => by simp [argument] at equal⟩
    · rename_i build middle readForm
      obtain ⟨⟨value, left⟩, readValue, equal⟩ := map_eq_ok_iff.mp read
      simp only [Prod.mk.injEq] at equal
      obtain ⟨rfl, rfl⟩ := equal
      obtain ⟨candidate, member, form, taken⟩ := (readForm_eq_ok_iff spellings_prefixFree).mp readForm
      obtain ⟨⟨symbols, spelled, takenValue⟩, small⟩ := readNumber_eq_ok_iff.mp readValue
      obtain ⟨argument, spelled⟩ := assemble member (by rw [form]; rfl) spelled taken takenValue
      refine ⟨spelled, fun other equal => ?_⟩
      rw [argument, Argument.number.injEq] at equal
      exact equal ▸ small
    · rename_i build middle readForm
      obtain ⟨⟨label, left⟩, readLabel, equal⟩ := map_eq_ok_iff.mp read
      simp only [Prod.mk.injEq] at equal
      obtain ⟨rfl, rfl⟩ := equal
      obtain ⟨candidate, member, form, taken⟩ := (readForm_eq_ok_iff spellings_prefixFree).mp readForm
      obtain ⟨argument, spelled⟩ := assemble member (by rw [form]; rfl) .label taken
        (readLabel_eq_ok_iff.mp readLabel)
      exact ⟨spelled, fun value equal => by simp [argument] at equal⟩
  · rintro ⟨⟨_, ⟨symbols, spelled, rfl⟩, taken⟩, fits⟩
    obtain ⟨⟨command, form⟩, member, rfl, built⟩ := exists_spelling op
    obtain ⟨middle, first, second⟩ := takes_append_iff.mp taken
    have readForm : readForm start spellings tokens = .ok (form, middle) :=
      (readForm_eq_ok_iff spellings_prefixFree).mpr ⟨_, member, rfl, first⟩
    rw [readOp, walk_commands, readForm]
    unfold Op.Fits at fits
    generalize op.argument = argument at built spelled fits
    cases form with
    | plain other =>
        cases spelled <;> simp only [Form.build?, reduceCtorEq, Option.some.injEq] at built
        rw [takes_nil_iff] at second
        rw [built, second]
    | number build =>
        cases argument with
        | none => simp [Form.build?] at built
        | label label => simp [Form.build?] at built
        | number value =>
            have read : readNumber start middle = .ok (value, rest) :=
              readNumber_eq_ok_iff.mpr ⟨⟨symbols, spelled, second⟩, fits value rfl⟩
            simp only [Form.build?, Option.some.injEq] at built
            exact map_eq_ok_iff.mpr ⟨(value, rest), read, by simp [built]⟩
    | label build =>
        cases spelled <;> simp only [Form.build?, reduceCtorEq, Option.some.injEq] at built
        exact map_eq_ok_iff.mpr ⟨(_, rest), readLabel_eq_ok_iff.mpr second, by simp [built]⟩

end Esoterica.Whitespace
