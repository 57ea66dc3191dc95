import Esoterica.Proofs.Source.Fence
import Esoterica.Proofs.Whitespace.Positions

/-!
Whitespace in visible letters. A text that holds the letters of some symbols, with whatever stands between
them and with or without fences around it, has one standard form, the blanks that the letters stand for.
It loads as every other source with these symbols does.
-/

namespace Esoterica

namespace Whitespace

/-- The symbols as letters in their order, with other characters before, between and behind them. -/
inductive Interleaved : List Symbol → List Char → Prop
  | nil : Interleaved [] []
  | letter (symbol : Symbol) {symbols : List Symbol} {chars : List Char}
      (rest : Interleaved symbols chars) : Interleaved (symbol :: symbols) (symbol.letter :: chars)
  | comment {c : Char} {symbols : List Symbol} {chars : List Char}
      (noLetter : c ≠ 'S' ∧ c ≠ 'T' ∧ c ≠ 'L') (rest : Interleaved symbols chars) :
      Interleaved symbols (c :: chars)

/-- A text in letters: one without backticks, or any one between fences below a tag. The lower fence may
stand right behind the text or on a line of its own, as the line break belongs to the text. -/
inductive Lettered (symbols : List Symbol) : String → Prop
  | bare {text : String} (letters : Interleaved symbols text.toList)
      (plain : '\x60' ∉ text.toList) : Lettered symbols text
  | fenced {tag text : String} (oneLine : '\n' ∉ tag.toList)
      (letters : Interleaved symbols text.toList) : Lettered symbols (Source.enclosed tag text)

/-- The symbols as blanks, tabs and linefeeds. -/
def blanks (symbols : List Symbol) : String :=
  String.ofList (symbols.map Symbol.toChar)

theorem symbols_blanks (list : List Symbol) : symbols (blanks list) = list := by
  have each : ∀ symbol : Symbol, Symbol.ofChar? symbol.toChar = some symbol := by
    intro symbol
    cases symbol <;> rfl
  rw [symbols, blanks, String.toList_ofList, List.filterMap_map]
  simp [each]

theorem Interleaved.filterMap_markedBlank? {symbols : List Symbol} {chars : List Char}
    (letters : Interleaved symbols chars) :
    chars.filterMap Source.markedBlank? = symbols.map Symbol.toChar := by
  induction letters with
  | nil => rfl
  | letter symbol rest inductionHypothesis =>
      have stands : Source.markedBlank? symbol.letter = some symbol.toChar := by
        cases symbol <;> rfl
      rw [List.filterMap_cons_some stands, inductionHypothesis, List.map_cons]
  | @comment c symbols chars noLetter rest inductionHypothesis =>
      have stands : Source.markedBlank? c = none := by
        unfold Source.markedBlank?
        split <;> simp_all
      rw [List.filterMap_cons_none stands, inductionHypothesis]

/-- In letters there is something to be replaced. -/
theorem Interleaved.exists_mark {symbols : List Symbol} {chars : List Char}
    (letters : Interleaved symbols chars) (nonempty : symbols ≠ []) :
    ∃ c ∈ chars, (Source.markedBlank? c).isSome := by
  obtain ⟨symbol, others, equal⟩ := List.exists_cons_of_ne_nil nonempty
  have blank : symbol.toChar ∈ chars.filterMap Source.markedBlank? := by
    rw [letters.filterMap_markedBlank?, equal]
    exact List.mem_cons_self
  obtain ⟨c, member, marked⟩ := List.mem_filterMap.1 blank
  exact ⟨c, member, by rw [marked]; rfl⟩

theorem Interleaved.expandMarks {symbols : List Symbol} {chars : List Char}
    (letters : Interleaved symbols chars) (nonempty : symbols ≠ []) :
    Source.expandMarks chars = symbols.map Symbol.toChar := by
  rw [Source.expandMarks, if_pos (List.any_eq_true.2 (letters.exists_mark nonempty)),
    letters.filterMap_markedBlank?]

theorem normalize_of_lettered {symbols : List Symbol} {text : String}
    (lettered : Lettered symbols text) (nonempty : symbols ≠ []) :
    Source.normalize .whitespace text = blanks symbols := by
  rw [Source.normalize_eq]
  apply congrArg String.ofList
  change Source.expandMarks _ = _
  cases lettered with
  | bare letters plain =>
      rw [Source.unfence_of_notMem plain]
      exact letters.expandMarks nonempty
  | fenced oneLine letters =>
      rw [Source.unfence_enclosed oneLine,
        Source.expandMarks_rdropWhile (letters.exists_mark nonempty)]
      exact letters.expandMarks nonempty

/-- Blanks, tabs and linefeeds stay as they are. -/
theorem normalize_blanks (symbols : List Symbol) :
    Source.normalize .whitespace (blanks symbols) = blanks symbols := by
  have each : ∀ symbol : Symbol,
      symbol.toChar ≠ '\x60' ∧ (Source.markedBlank? symbol.toChar).isSome = false := by
    intro symbol
    cases symbol <;> decide
  have plain : '\x60' ∉ symbols.map Symbol.toChar := by
    intro member
    obtain ⟨symbol, _, same⟩ := List.mem_map.1 member
    exact (each symbol).1 same
  have unmarked : ¬ ∃ c ∈ symbols.map Symbol.toChar, (Source.markedBlank? c).isSome := by
    intro ⟨c, member, marked⟩
    obtain ⟨symbol, _, rfl⟩ := List.mem_map.1 member
    rw [(each symbol).2] at marked
    cases marked
  rw [Source.normalize_eq, blanks, String.toList_ofList, Source.unfence_of_notMem plain]
  exact congrArg String.ofList (Source.expandMarks_of_subset unmarked (List.Subset.refl _))

/-- Every text in letters has the blanks of its symbols as its standard form, which is its own standard
form. It loads to the same instructions and labels as every source with these symbols, or fails with an
error of the same kind. -/
theorem letters_stand_for_blanks {list : List Symbol} (nonempty : list ≠ []) {text : String}
    (lettered : Lettered list text) :
    let form := Source.normalize .whitespace text
    form = blanks list ∧ Source.normalize .whitespace form = form ∧
      ∀ (options : Options) (source : String), symbols source = list →
        ReadsAlike Program.SameCode (Program.load options form) (Program.load options source) := by
  intro form
  have spelled : form = blanks list := normalize_of_lettered lettered nonempty
  rw [spelled]
  refine ⟨rfl, normalize_blanks list, ?_⟩
  intro options source same
  apply load_alike
  rw [symbols_blanks, same]

/-- A program that pushes a number, below a tag with two of the letters and with blanks among its own. -/
theorem letters_below_tag_stand_for_blanks :
    let list : List Symbol :=
      [.space, .space, .space, .tab, .linefeed, .linefeed, .linefeed, .linefeed]
    let text := Source.enclosed "LiSting" "SSS T L\nLLL"
    let source := "  a b\t\nx\n\n\n"
    list ≠ [] ∧ Lettered list text ∧ symbols source = list ∧
      Source.normalize .whitespace text = "   \t\n\n\n\n" ∧
      (Program.load {} source).isOk ∧
      ReadsAlike Program.SameCode (Program.load {} (Source.normalize .whitespace text))
        (Program.load {} source) := by
  intro list text source
  have nonempty : list ≠ [] := List.cons_ne_nil _ _
  have space : ' ' ≠ 'S' ∧ ' ' ≠ 'T' ∧ ' ' ≠ 'L' := by decide
  have linefeed : '\n' ≠ 'S' ∧ '\n' ≠ 'T' ∧ '\n' ≠ 'L' := by decide
  have letters : Interleaved list "SSS T L\nLLL".toList :=
    .letter .space (.letter .space (.letter .space (.comment space (.letter .tab (.comment space
      (.letter .linefeed (.comment linefeed (.letter .linefeed (.letter .linefeed
        (.letter .linefeed .nil))))))))))
  have lettered : Lettered list text := .fenced (by decide) letters
  have same : symbols source = list := by decide
  obtain ⟨form, _, alike⟩ := letters_stand_for_blanks nonempty lettered
  exact ⟨nonempty, lettered, same, form, by decide +kernel, alike {} source same⟩

end Whitespace

end Esoterica
