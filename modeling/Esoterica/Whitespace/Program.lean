import Esoterica.Options
import Esoterica.Whitespace.Trie

/-!
Whitespace programs. Every character but blank, tab and linefeed is a comment. A program must hold an
exit, mark no label twice, and mark every label that it jumps to.
-/

namespace Esoterica.Whitespace

/-- The symbols of a source from a position on. -/
def tokens (position : Nat) : List Char → List Token
  | [] => []
  | c :: rest =>
    match Symbol.ofChar? c with
    | some symbol => (symbol, position) :: tokens (position + 1) rest
    | none => tokens (position + 1) rest

/-- Reads binary digits up to a linefeed. The number must stay below `2 ^ 63`, whatever its sign. -/
def readDigits (start : Nat) (negative : Bool) (magnitude : Nat) :
    List Token → Except Error (Word × List Token)
  | [] => .error (loadFault (.invalidNumber start "missing terminator"))
  | (.linefeed, _) :: rest =>
    .ok (Int64.ofInt (if negative then -(magnitude : Int) else magnitude), rest)
  | (symbol, position) :: rest =>
    if Word.greatest < 2 * magnitude + symbol.digit then
      .error (loadFault (.invalidNumber position "does not fit in 64 bits"))
    else readDigits start negative (2 * magnitude + symbol.digit) rest

/-- Reads a number: a sign, a blank for plus and a tab for minus, then digits, a blank for zero and a
tab for one, then a linefeed. A linefeed alone is zero. -/
def readNumber (start : Nat) : List Token → Except Error (Word × List Token)
  | [] => .error (loadFault (.invalidNumber start "missing sign"))
  | (.linefeed, _) :: rest => .ok (0, rest)
  | (.space, _) :: rest => readDigits start false 0 rest
  | (.tab, _) :: rest => readDigits start true 0 rest

/-- Reads a label up to a linefeed. -/
def readLabel (start : Nat) : List Token → Except Error (Label × List Token)
  | [] => .error (loadFault (.invalidInstruction start "label is missing its terminator"))
  | (.linefeed, _) :: rest => .ok (⟨[]⟩, rest)
  | (symbol, _) :: rest =>
    match readLabel start rest with
    | .error error => .error error
    | .ok (label, rest) => .ok (⟨(symbol = .tab) :: label.marks⟩, rest)

/-- Reads an instruction with what belongs to it. -/
def readOp (trie : Trie) (start : Nat) (tokens : List Token) : Except Error (Op × List Token) :=
  match trie.walk start trie.root tokens with
  | .error error => .error error
  | .ok (.plain op, rest) => .ok (op, rest)
  | .ok (.number build, rest) => (readNumber start rest).map fun (value, rest) => (build value, rest)
  | .ok (.label build, rest) => (readLabel start rest).map fun (label, rest) => (build label, rest)

theorem readDigits_shorter {start : Nat} {negative : Bool} {magnitude : Nat}
    {tokens rest : List Token} {value : Word}
    (read : readDigits start negative magnitude tokens = .ok (value, rest)) :
    rest.length < tokens.length := by
  induction tokens generalizing magnitude with
  | nil => simp [readDigits] at read
  | cons token tokens inductionHypothesis =>
      rw [readDigits.eq_def] at read
      split at read
      · simp at read
      · rename_i equal
        simp only [List.cons.injEq] at equal
        simp only [Except.ok.injEq, Prod.mk.injEq] at read
        simp [← read.2, equal.2]
      · rename_i equal
        simp only [List.cons.injEq] at equal
        split at read
        · simp at read
        · rw [← equal.2] at read
          have := inductionHypothesis read
          simp only [List.length_cons]
          omega

theorem readNumber_shorter {start : Nat} {tokens rest : List Token} {value : Word}
    (read : readNumber start tokens = .ok (value, rest)) : rest.length < tokens.length := by
  rcases tokens with _ | ⟨⟨_ | _ | _, position⟩, tokens⟩ <;> simp only [readNumber] at read
  · simp at read
  · have := readDigits_shorter read
    simp only [List.length_cons]
    omega
  · have := readDigits_shorter read
    simp only [List.length_cons]
    omega
  · simp only [Except.ok.injEq, Prod.mk.injEq] at read
    simp [read.2]

theorem readLabel_shorter {start : Nat} {tokens rest : List Token} {label : Label}
    (read : readLabel start tokens = .ok (label, rest)) : rest.length < tokens.length := by
  induction tokens generalizing label rest with
  | nil => simp [readLabel] at read
  | cons token tokens inductionHypothesis =>
      rw [readLabel.eq_def] at read
      split at read
      · simp at read
      · rename_i equal
        simp only [List.cons.injEq] at equal
        simp only [Except.ok.injEq, Prod.mk.injEq] at read
        simp [← read.2, equal.2]
      · rename_i equal
        simp only [List.cons.injEq] at equal
        split at read
        · simp at read
        · rename_i inner tail readTail
          rw [← equal.2] at readTail
          simp only [Except.ok.injEq, Prod.mk.injEq] at read
          have := inductionHypothesis readTail
          simp only [List.length_cons, ← read.2]
          omega

/-- Reading an instruction takes at least one symbol. -/
theorem readOp_shorter {trie : Trie} {start : Nat} {tokens rest : List Token} {op : Op}
    (read : readOp trie start tokens = .ok (op, rest)) : rest.length < tokens.length := by
  unfold readOp at read
  split at read
  · simp at read
  · rename_i form rest' walked
    simp only [Except.ok.injEq, Prod.mk.injEq] at read
    rw [← read.2]
    exact Trie.walk_shorter walked
  · rename_i build middle walked
    have first := Trie.walk_shorter walked
    cases number : readNumber start middle with
    | error error => simp [number, Except.map] at read
    | ok result =>
        obtain ⟨value, tail⟩ := result
        have second := readNumber_shorter number
        simp only [number, Except.map, Except.ok.injEq, Prod.mk.injEq] at read
        rw [← read.2]
        omega
  · rename_i build middle walked
    have first := Trie.walk_shorter walked
    cases labelled : readLabel start middle with
    | error error => simp [labelled, Except.map] at read
    | ok result =>
        obtain ⟨label, tail⟩ := result
        have second := readLabel_shorter labelled
        simp only [labelled, Except.map, Except.ok.injEq, Prod.mk.injEq] at read
        rw [← read.2]
        omega

/-- The labels of a program with the indices of the instructions after their marks, in the order of
the marks. -/
abbrev Labels := List (Label × Nat)

/-- The labels after an instruction at an index has been read; a label that is there may not be
marked again. -/
def addMark (start index : Nat) (labels : Labels) : Op → Except Error Labels
  | .mark label =>
    if (labels.lookup label).isSome then
      .error (loadFault (.duplicateLabel label.text start))
    else .ok (labels ++ [(label, index + 1)])
  | _ => .ok labels

/-- Instructions with the positions where they start, and the labels among them. -/
structure Listing where
  instructions : List (Op × Nat) := []
  labels : Labels := []

/-- Reads instructions to the end, the first of them with an index. -/
def readOps (trie : Trie) (index : Nat) (labels : Labels) (tokens : List Token) :
    Except Error Listing :=
  match tokens with
  | [] => .ok { labels }
  | (symbol, start) :: rest =>
    match read : readOp trie start ((symbol, start) :: rest) with
    | .error error => .error error
    | .ok (op, after) =>
      have := readOp_shorter read
      match addMark start index labels op with
      | .error error => .error error
      | .ok labels =>
        match readOps trie (index + 1) labels after with
        | .error error => .error error
        | .ok listing => .ok { listing with instructions := (op, start) :: listing.instructions }
termination_by tokens.length
decreasing_by assumption

/-- Refuses the first jump to a label that is not marked. -/
def checkTargets (labels : Labels) : List (Op × Nat) → Except Error Unit
  | [] => .ok ()
  | (op, position) :: rest =>
    match op.target? with
    | none => checkTargets labels rest
    | some label =>
      if (labels.lookup label).isSome then checkTargets labels rest
      else
        .error ((loadFault (.undefinedLabel label.text)).noting "position" (toString position))

structure Program where
  ops : Array Op
  /-- Where each instruction starts in the source. -/
  positions : Array Nat
  labels : Labels
deriving DecidableEq, Repr

namespace Program

/-- The index at which a jump to a label goes on. -/
def target? (program : Program) (label : Label) : Option Nat :=
  program.labels.lookup label

/-- The program of a source text. -/
def parse (source : String) : Except Error Program := do
  let listing ← readOps commands 0 [] (tokens 0 source.toList)
  let ops := listing.instructions.map (·.1)
  if !ops.contains .exit then .error (loadFault (.missingExit "exit (LLL)"))
  else
    checkTargets listing.labels listing.instructions
    return {
      ops := ops.toArray
      positions := (listing.instructions.map (·.2)).toArray
      labels := listing.labels }

/-- The program of a source text, under options with which it can run. -/
def load (options : Options) (source : String) : Except Error Program := do
  options.validate
  parse source

end Program

end Esoterica.Whitespace
