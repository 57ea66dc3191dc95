import Esoterica.Proofs.Whitespace.RoundTrip

/-!
Programs are made of symbols alone. Where a symbol stands in the source shows only in the positions of the
instructions and in the texts of errors: sources with the same symbols load to the same instructions and
labels, or fail with errors of one kind.
-/

namespace Esoterica.Whitespace

/-- Two readings give related results, or fail with errors of one kind. -/
def ReadsAlike {A B : Type} (related : A → B → Prop) : Except Error A → Except Error B → Prop
  | .ok first, .ok second => related first second
  | .error first, .error second => first.kind = second.kind
  | _, _ => False

section ReadsAlike

variable {A B C D : Type} {related : A → B → Prop} {results : C → D → Prop} {first : Except Error A}
  {second : Except Error B}

theorem ReadsAlike.bind {next : A → Except Error C} {other : B → Except Error D}
    (alike : ReadsAlike related first second)
    (later : ∀ a b, first = .ok a → second = .ok b → related a b →
      ReadsAlike results (next a) (other b)) :
    ReadsAlike results (first >>= next) (second >>= other) := by
  cases first with
  | error failure =>
      cases second with
      | error failureToo => exact alike
      | ok b => exact alike.elim
  | ok a =>
      cases second with
      | error failure => exact alike.elim
      | ok b => exact later a b rfl rfl alike

theorem ReadsAlike.map {change : A → C} {other : B → D} (alike : ReadsAlike related first second)
    (changed : ∀ a b, related a b → results (change a) (other b)) :
    ReadsAlike results (first.map change) (second.map other) := by
  cases first with
  | error failure =>
      cases second with
      | error failureToo => exact alike
      | ok b => exact alike.elim
  | ok a =>
      cases second with
      | error failure => exact alike.elim
      | ok b => exact changed a b alike

theorem ReadsAlike.refl {first : Except Error A} : ReadsAlike Eq first first := by
  cases first with
  | error failure => exact rfl
  | ok a => exact rfl

-- The kind is named because the texts of the two errors differ in their positions: each error is compared
-- with the kind, and not with the other error.
theorem ReadsAlike.of_kind {failure failureToo : Error} (kind : Kind) (failed : failure.kind = kind)
    (failedToo : failureToo.kind = kind) : ReadsAlike related (.error failure) (.error failureToo) :=
  failed.trans failedToo.symm

end ReadsAlike

/-- The same symbols, at whatever positions. -/
def SameSymbols (tokens others : List Token) : Prop :=
  tokens.map Prod.fst = others.map Prod.fst

/-- The same was read, and the same symbols are left. -/
def SameReading {A : Type} (first second : A × List Token) : Prop :=
  first.1 = second.1 ∧ SameSymbols first.2 second.2

theorem SameReading.change {A B : Type} {first second : A × List Token}
    (same : SameReading first second) (build : A → B) :
    SameReading (build first.1, first.2) (build second.1, second.2) :=
  ⟨congrArg build same.1, same.2⟩

/-- Reads what belongs to a form and builds its instruction. -/
def Form.read (start : Nat) (tokens : List Token) : Form → Except Error (Op × List Token)
  | .plain op => .ok (op, tokens)
  | .number build => (readNumber start tokens).map fun (value, rest) => (build value, rest)
  | .label build => (readLabel start tokens).map fun (target, rest) => (build target, rest)

section Reading

variable {start other : Nat} {tokens others : List Token}

theorem SameSymbols.eq_nil (same : SameSymbols [] others) : others = [] :=
  List.map_eq_nil_iff.1 same.symm

theorem SameSymbols.exists_cons {symbol : Symbol} {position : Nat}
    (same : SameSymbols ((symbol, position) :: tokens) others) :
    ∃ place rest, others = (symbol, place) :: rest ∧ SameSymbols tokens rest := by
  obtain ⟨⟨_, place⟩, rest, rfl, rfl, later⟩ := List.map_eq_cons_iff.1 same.symm
  exact ⟨place, rest, rfl, later.symm⟩

theorem readForm_alike (candidates : List Spelling) (same : SameSymbols tokens others) :
    ReadsAlike SameReading (readForm start candidates tokens) (readForm other candidates others) := by
  induction tokens generalizing candidates others with
  | nil =>
      rw [same.eq_nil]
      exact .of_kind .invalidInstruction rfl rfl
  | cons token tokens inductionHypothesis =>
      obtain ⟨place, rest, rfl, later⟩ := same.exists_cons
      simp only [readForm]
      cases continuing token.1 candidates with
      | nil => exact .of_kind .invalidInstruction rfl rfl
      | cons first more =>
          simp only
          cases (first :: more).find? (·.symbols.isEmpty) with
          | none => exact inductionHypothesis _ later
          | some spelling => exact ⟨rfl, later⟩

theorem readDigits_alike (negative : Bool) (magnitude : Nat) (same : SameSymbols tokens others) :
    ReadsAlike SameReading (readDigits start negative magnitude tokens)
      (readDigits other negative magnitude others) := by
  induction tokens generalizing magnitude others with
  | nil =>
      rw [same.eq_nil]
      exact .of_kind .invalidNumber rfl rfl
  | cons token tokens inductionHypothesis =>
      obtain ⟨symbol, position⟩ := token
      obtain ⟨place, rest, rfl, later⟩ := same.exists_cons
      obtain rfl | ⟨digit, rfl⟩ := symbol.linefeed_or_ofBool
      · exact ⟨rfl, later⟩
      · rw [readDigits_ofBool, readDigits_ofBool]
        split
        · exact .of_kind .invalidNumber rfl rfl
        · exact inductionHypothesis _ later

theorem readNumber_alike (same : SameSymbols tokens others) :
    ReadsAlike SameReading (readNumber start tokens) (readNumber other others) := by
  cases tokens with
  | nil =>
      rw [same.eq_nil]
      exact .of_kind .invalidNumber rfl rfl
  | cons token tokens =>
      obtain ⟨symbol, position⟩ := token
      obtain ⟨place, rest, rfl, later⟩ := same.exists_cons
      obtain rfl | ⟨negative, rfl⟩ := symbol.linefeed_or_ofBool
      · exact ⟨rfl, later⟩
      · rw [readNumber_ofBool, readNumber_ofBool]
        exact readDigits_alike negative 0 later

theorem readLabel_alike (same : SameSymbols tokens others) :
    ReadsAlike SameReading (readLabel start tokens) (readLabel other others) := by
  induction tokens generalizing others with
  | nil =>
      rw [same.eq_nil]
      exact .of_kind .invalidInstruction rfl rfl
  | cons token tokens inductionHypothesis =>
      obtain ⟨symbol, position⟩ := token
      obtain ⟨place, rest, rfl, later⟩ := same.exists_cons
      obtain rfl | ⟨tab, rfl⟩ := symbol.linefeed_or_ofBool
      · exact ⟨rfl, later⟩
      · rw [readLabel_ofBool, readLabel_ofBool]
        apply (inductionHypothesis later).map
        intro first second alike
        exact alike.change fun label => Label.mk (tab :: label.marks)

theorem readOp_eq (start : Nat) (tokens : List Token) :
    readOp commands start tokens =
      readForm start spellings tokens >>= fun (form, rest) => form.read start rest := by
  rw [readOp, walk_commands]
  cases readForm start spellings tokens with
  | error failure => rfl
  | ok found =>
      obtain ⟨form, rest⟩ := found
      cases form <;> rfl

theorem readOp_alike (same : SameSymbols tokens others) :
    ReadsAlike SameReading (readOp commands start tokens) (readOp commands other others) := by
  rw [readOp_eq, readOp_eq]
  apply (readForm_alike spellings same).bind
  intro found foundToo _ _ sameReading
  obtain ⟨form, rest⟩ := found
  obtain ⟨_, behind⟩ := foundToo
  obtain ⟨rfl, later⟩ := sameReading
  cases form with
  | plain op => exact ⟨rfl, later⟩
  | number build =>
      apply (readNumber_alike later).map
      intro first second alike
      exact alike.change build
  | label build =>
      apply (readLabel_alike later).map
      intro first second alike
      exact alike.change build

end Reading

/-- The same instructions and the same labels. -/
def Listing.Same (first second : Listing) : Prop :=
  first.instructions.map Prod.fst = second.instructions.map Prod.fst ∧ first.labels = second.labels

theorem addMark_alike (start other index : Nat) (labels : Labels) (op : Op) :
    ReadsAlike Eq (addMark start index labels op) (addMark other index labels op) := by
  cases op with
  | mark label =>
      simp only [addMark]
      by_cases marked : (labels.lookup label).isSome
      · rw [if_pos marked, if_pos marked]
        exact .of_kind .duplicateLabel rfl rfl
      · rw [if_neg marked, if_neg marked]
        exact rfl
  | _ => exact rfl

theorem readOps_cons (index : Nat) (labels : Labels) (symbol : Symbol) (start : Nat)
    (rest : List Token) :
    readOps commands index labels ((symbol, start) :: rest) =
      readOp commands start ((symbol, start) :: rest) >>= fun (op, after) =>
        addMark start index labels op >>= fun marked =>
          (readOps commands (index + 1) marked after).map fun listing =>
            { listing with instructions := (op, start) :: listing.instructions } := by
  rw [readOps]
  split
  · rename_i failure read
    rw [read]
    rfl
  · rename_i op after read
    conv =>
      rhs
      rw [read]
    change _ = addMark start index labels op >>= _
    cases addMark start index labels op with
    | error failure => rfl
    | ok marked =>
        simp only [bind, Except.bind]
        cases readOps commands (index + 1) marked after <;> rfl

theorem readOps_alike (index : Nat) (labels : Labels) {tokens others : List Token}
    (same : SameSymbols tokens others) :
    ReadsAlike Listing.Same (readOps commands index labels tokens)
      (readOps commands index labels others) := by
  induction size : tokens.length using Nat.strongRecOn generalizing index labels tokens others with
  | ind length inductionHypothesis =>
      cases tokens with
      | nil =>
          rw [same.eq_nil, readOps]
          exact ⟨rfl, rfl⟩
      | cons token tokens =>
          obtain ⟨symbol, start⟩ := token
          obtain ⟨place, rest, rfl, _⟩ := same.exists_cons
          rw [readOps_cons, readOps_cons]
          apply (readOp_alike same).bind
          intro found foundToo read _ sameReading
          obtain ⟨op, after⟩ := found
          obtain ⟨_, behind⟩ := foundToo
          obtain ⟨rfl, left⟩ := sameReading
          apply (addMark_alike start place index labels op).bind
          intro marked _ _ _ equal
          cases equal
          have shorter : after.length < length := size ▸ readOp_shorter read
          apply (inductionHypothesis _ shorter (index + 1) marked left rfl).map
          intro first second sameListing
          exact ⟨congrArg (op :: ·) sameListing.1, sameListing.2⟩

theorem checkTargets_alike (labels : Labels) {instructions others : List (Op × Nat)}
    (same : instructions.map Prod.fst = others.map Prod.fst) :
    ReadsAlike Eq (checkTargets labels instructions) (checkTargets labels others) := by
  induction instructions generalizing others with
  | nil =>
      rw [List.map_eq_nil_iff.1 same.symm]
      exact rfl
  | cons instruction instructions inductionHypothesis =>
      obtain ⟨op, position⟩ := instruction
      obtain ⟨⟨_, place⟩, rest, rfl, rfl, later⟩ := List.map_eq_cons_iff.1 same.symm
      have others := inductionHypothesis later.symm
      simp only [checkTargets]
      split
      · exact others
      · split
        · exact others
        · exact .of_kind .undefinedLabel rfl rfl

/-- The same instructions, and the same labels for them. -/
structure Program.SameCode (first second : Program) : Prop where
  ops : first.ops = second.ops
  labels : first.labels = second.labels

theorem parse_alike {source text : String} (same : symbols source = symbols text) :
    ReadsAlike Program.SameCode (Program.parse source) (Program.parse text) := by
  have tokensSame : SameSymbols (tokens 0 source.toList) (tokens 0 text.toList) := by
    rw [SameSymbols, map_fst_tokens, map_fst_tokens]
    exact same
  apply (readOps_alike 0 [] tokensSame).bind
  intro first second _ _ ⟨instructions, labels⟩
  simp only [instructions, labels]
  split
  · exact rfl
  · apply (checkTargets_alike second.labels instructions).bind
    intro _ _ _ _ _
    exact ⟨rfl, rfl⟩

/-- Sources with the same symbols load to the same instructions and labels, or fail in the same way. -/
theorem load_alike (options : Options) {source text : String} (same : symbols source = symbols text) :
    ReadsAlike Program.SameCode (Program.load options source) (Program.load options text) := by
  apply ReadsAlike.refl.bind
  intro _ _ _ _ _
  exact parse_alike same

end Esoterica.Whitespace
