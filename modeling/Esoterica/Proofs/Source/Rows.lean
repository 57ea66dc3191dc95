import Esoterica.Proofs.Text
import Esoterica.Source
import Mathlib.Data.List.DropRight
import Mathlib.Data.List.Induction

/-!
The rows of a text: its lines without carriage returns at their ends and without tabs. The standard
form of a grid has these rows, but a blank row at the end gets lost; without the line breaks at its end
a text loses all of them.
-/

namespace Esoterica

namespace Text

/-- What a character makes of a line that it continues. A linefeed ends the line, and a carriage return
before it goes. -/
def continueLine (line : List Char) (c : Char) : List Char :=
  if c = '\n' then if line.getLast? = some '\r' then line.dropLast else line
  else line ++ [c]

theorem continueLine_cons {line : List Char} (nonempty : line ≠ []) (first c : Char) :
    continueLine (first :: line) c = first :: continueLine line c := by
  cases line with
  | nil => exact (nonempty rfl).elim
  | cons second line =>
      simp only [continueLine, List.getLast?_cons_cons, List.dropLast_cons_cons]
      split
      · split <;> rfl
      · rfl

theorem lines_eq_nil_iff {chars : List Char} : lines chars = [] ↔ chars = [] := by
  fun_cases lines chars <;> simp

/-- A character at the end of a text starts a line of its own or continues the last one. -/
theorem lines_concat (chars : List Char) (c : Char) :
    ∃ before line, lines (chars ++ [c]) = before ++ [continueLine line c] ∧
      (lines chars = before ∧ line = [] ∨ lines chars = before ++ [line] ∧ line ≠ []) := by
  fun_induction lines chars with
  | case1 =>
      refine ⟨[], [], ?_, .inl ⟨rfl, rfl⟩⟩
      by_cases linefeed : c = '\n'
      · rw [linefeed]
        rfl
      · simp [lines, continueLine, linefeed]
  | case2 rest inductionHypothesis =>
      obtain ⟨before, line, text, last⟩ := inductionHypothesis
      refine ⟨[] :: before, line, by simp [lines, text], ?_⟩
      simpa using last
  | case3 rest inductionHypothesis =>
      obtain ⟨before, line, text, last⟩ := inductionHypothesis
      refine ⟨[] :: before, line, by simp [lines, text], ?_⟩
      simpa using last
  | case4 first rest notLinefeed notReturn nothing =>
      obtain rfl := lines_eq_nil_iff.1 nothing
      refine ⟨[], [first], ?_, .inr ⟨rfl, by simp⟩⟩
      by_cases ending : first = '\r' ∧ c = '\n'
      · obtain ⟨rfl, rfl⟩ := ending
        rfl
      · rw [List.singleton_append, lines.eq_4 first [c] notLinefeed (by grind)]
        by_cases linefeed : c = '\n'
        · have kept : first ≠ '\r' := fun equal => ending ⟨equal, linefeed⟩
          simp [linefeed, lines, continueLine, kept]
        · simp [lines, continueLine, linefeed]
  | case5 first rest notLinefeed notReturn line more others inductionHypothesis =>
      obtain ⟨before, last, text, place⟩ := inductionHypothesis
      have apart : ∀ tail, first = '\r' → rest ++ [c] = '\n' :: tail → False := by
        intro tail isReturn equal
        cases rest with
        | nil => simp [lines] at others
        | cons second rest => exact notReturn rest isReturn (by rw [(List.cons_eq_cons.1 equal).1])
      rw [List.cons_append, lines.eq_4 first (rest ++ [c]) notLinefeed apart, text]
      obtain ⟨rfl, rfl⟩ | ⟨equal, nonempty⟩ := place
      · exact ⟨(first :: line) :: more, [], by simp [others], .inl ⟨rfl, rfl⟩⟩
      · rw [others] at equal
        cases before with
        | nil =>
            obtain ⟨rfl, rfl⟩ := List.cons_eq_cons.1 equal
            refine ⟨[], first :: line, ?_, .inr ⟨rfl, by simp⟩⟩
            simp [continueLine_cons nonempty]
        | cons top before =>
            obtain ⟨rfl, rfl⟩ := List.cons_eq_cons.1 equal
            exact ⟨(first :: line) :: before, last, rfl, .inr ⟨rfl, nonempty⟩⟩

theorem notMem_of_mem_lines {chars line : List Char} (member : line ∈ lines chars) : '\n' ∉ line := by
  fun_induction lines chars generalizing line with
  | case1 => simp at member
  | case2 rest inductionHypothesis => grind
  | case3 rest inductionHypothesis => grind
  | case4 first rest notLinefeed _ nothing => grind
  | case5 first rest notLinefeed _ top more others inductionHypothesis => grind

/-- A line that is clean of carriage returns at its end stays as it is. -/
theorem continueLine_linefeed {line : List Char} (clean : line.getLast? ≠ some '\r') :
    continueLine line '\n' = line := by
  rw [continueLine, if_pos rfl, if_neg clean]

/-- A line is split off at its linefeed. -/
theorem lines_append_linefeed {line : List Char} (oneLine : '\n' ∉ line) (rest : List Char) :
    lines (line ++ '\n' :: rest) = continueLine line '\n' :: lines rest := by
  induction line with
  | nil => rfl
  | cons first line inductionHypothesis =>
      rw [List.mem_cons, not_or] at oneLine
      cases line with
      | nil =>
          by_cases isReturn : first = '\r'
          · rw [isReturn]
            rfl
          · rw [List.singleton_append, lines.eq_4 first _ (Ne.symm oneLine.1) (by simp [isReturn]),
              continueLine_linefeed (by simpa using isReturn)]
            rfl
      | cons second line =>
          have apart : ∀ tail, first = '\r' → second :: line ++ '\n' :: rest = '\n' :: tail → False := by
            intro tail _ equal
            exact oneLine.2 (by simp [(List.cons_eq_cons.1 equal).1])
          rw [List.cons_append, lines.eq_4 first _ (Ne.symm oneLine.1) apart,
            inductionHypothesis oneLine.2, continueLine_cons (List.cons_ne_nil second line)]

theorem lines_of_one_line {line : List Char} (oneLine : '\n' ∉ line) (nonempty : line ≠ []) :
    lines line = [line] := by
  induction line with
  | nil => exact (nonempty rfl).elim
  | cons first line inductionHypothesis =>
      rw [List.mem_cons, not_or] at oneLine
      have apart : ∀ tail, first = '\r' → line = '\n' :: tail → False := by
        rintro tail _ rfl
        exact oneLine.2 List.mem_cons_self
      rw [lines.eq_4 first line (Ne.symm oneLine.1) apart]
      cases line with
      | nil => rfl
      | cons second line => rw [inductionHypothesis oneLine.2 (by simp)]

/-- Rows without a blank one at the end. -/
def dropLastBlank (rows : List (List Char)) : List (List Char) :=
  if rows.getLast? = some [] then rows.dropLast else rows

theorem getLast?_rdropWhile_isEmpty (rows : List (List Char)) :
    (rows.rdropWhile List.isEmpty).getLast? ≠ some [] := by
  intro last
  obtain ⟨front, equal⟩ := List.getLast?_eq_some_iff.1 last
  have notBlank := List.rdropWhile_last_not List.isEmpty rows (by simp [equal])
  simp [equal] at notBlank

/-- Clean lines with linefeeds between them are read back, but for a blank one at the end. -/
theorem lines_intercalate {rows : List (List Char)}
    (clean : ∀ row ∈ rows, '\n' ∉ row ∧ row.getLast? ≠ some '\r') :
    lines (List.intercalate ['\n'] rows) = dropLastBlank rows := by
  induction rows with
  | nil => rfl
  | cons row rows inductionHypothesis =>
      obtain ⟨oneLine, noReturn⟩ := clean row List.mem_cons_self
      have later := inductionHypothesis fun row member => clean row (List.mem_cons_of_mem _ member)
      cases rows with
      | nil =>
          by_cases blank : row = []
          · rw [blank]
            rfl
          · simpa [dropLastBlank, blank] using lines_of_one_line oneLine blank
      | cons second rows =>
          rw [List.intercalate_cons_cons, List.append_assoc, List.singleton_append,
            lines_append_linefeed oneLine, continueLine_linefeed noReturn, later, dropLastBlank,
            dropLastBlank, List.getLast?_cons_cons, List.dropLast_cons_cons]
          split <;> rfl

end Text

namespace Source

def isBreak (c : Char) : Bool :=
  c == '\n' || c == '\r'

/-- The rows of a text, which is to be a grid. -/
def rows (chars : List Char) : List (List Char) :=
  (Text.lines chars).map cleanLine

theorem cleanLine_concat_return (line : List Char) :
    cleanLine (line ++ ['\r']) = cleanLine line := by
  have trimmed : Text.trimEnd (· == '\r') (line ++ ['\r']) = Text.trimEnd (· == '\r') line :=
    List.rdropWhile_concat_pos _ line '\r' rfl
  rw [cleanLine, trimmed, cleanLine]

theorem cleanLine_concat_ne_nil {c : Char} (notReturn : c ≠ '\r') (line : List Char) :
    cleanLine (line ++ [c]) ≠ [] := by
  have kept : Text.trimEnd (· == '\r') (line ++ [c]) = line ++ [c] :=
    List.rdropWhile_concat_neg _ line c (by simpa using notReturn)
  simp [cleanLine, kept]

/-- A line break at its end does not change a row. -/
theorem cleanLine_continueLine {c : Char} (breaks : isBreak c) (line : List Char) :
    cleanLine (Text.continueLine line c) = cleanLine line := by
  have cases : c = '\n' ∨ c = '\r' := by simpa [isBreak] using breaks
  rcases cases with rfl | rfl
  · rw [Text.continueLine, if_pos rfl]
    split
    · rename_i last
      obtain ⟨line, rfl⟩ := List.getLast?_eq_some_iff.1 last
      rw [List.dropLast_concat, cleanLine_concat_return]
    · rfl
  · exact cleanLine_concat_return line

theorem clean_of_mem_rows {chars row : List Char} (member : row ∈ rows chars) :
    '\n' ∉ row ∧ row.getLast? ≠ some '\r' := by
  obtain ⟨line, inLines, rfl⟩ := List.mem_map.1 member
  constructor
  · intro linefeed
    obtain ⟨c, kept, changed⟩ := List.mem_map.1 linefeed
    have same : c = '\n' := by grind
    have inLine : c ∈ line := (List.rdropWhile_prefix _ line).subset kept
    exact Text.notMem_of_mem_lines inLines (same ▸ inLine)
  · intro last
    rw [cleanLine, List.getLast?_map, Option.map_eq_some_iff] at last
    obtain ⟨c, last, changed⟩ := last
    obtain rfl : c = '\r' := by grind
    obtain ⟨front, equal⟩ := List.getLast?_eq_some_iff.1 last
    change line.rdropWhile (· == '\r') = front ++ ['\r'] at equal
    have notReturn := List.rdropWhile_last_not (· == '\r') line (by simp [equal])
    simp [equal] at notReturn

/-- A line break at the end of a text adds a blank row, or ends the last one. -/
theorem rows_concat_break {c : Char} (breaks : isBreak c) (chars : List Char) :
    rows (chars ++ [c]) = rows chars ∨ rows (chars ++ [c]) = rows chars ++ [[]] := by
  obtain ⟨before, line, text, ⟨rfl, rfl⟩ | ⟨equal, _⟩⟩ := Text.lines_concat chars c
  · right
    rw [rows, text, List.map_append, List.map_singleton, cleanLine_continueLine breaks]
    rfl
  · left
    rw [rows, rows, text, equal, List.map_append, List.map_append, List.map_singleton,
      List.map_singleton, cleanLine_continueLine breaks]

/-- Without the line breaks at its end a text has no blank rows at its end. -/
theorem rows_rdropWhile (chars : List Char) :
    rows (chars.rdropWhile isBreak) = (rows chars).rdropWhile List.isEmpty := by
  induction chars using List.reverseRecOn with
  | nil => rfl
  | append_singleton chars c inductionHypothesis =>
      by_cases breaks : isBreak c
      · rw [List.rdropWhile_concat_pos _ _ _ breaks, inductionHypothesis]
        rcases rows_concat_break breaks chars with same | more
        · rw [same]
        · rw [more, List.rdropWhile_concat_pos _ _ _ rfl]
      · rw [List.rdropWhile_concat_neg _ _ _ breaks]
        obtain ⟨before, line, text, _⟩ := Text.lines_concat chars c
        have notBreak : c ≠ '\n' ∧ c ≠ '\r' := by simpa [isBreak] using breaks
        have last : rows (chars ++ [c]) = before.map cleanLine ++ [cleanLine (line ++ [c])] := by
          rw [rows, text, Text.continueLine, if_neg notBreak.1, List.map_append, List.map_singleton]
        have nonempty := cleanLine_concat_ne_nil notBreak.2 line
        rw [last, List.rdropWhile_concat_neg _ _ _ (by simpa using nonempty)]

/-- In standard form a text has its rows, but for a blank one at the end. -/
theorem lines_cleanLines (chars : List Char) :
    Text.lines (cleanLines chars) = Text.dropLastBlank (rows chars) :=
  Text.lines_intercalate fun _ => clean_of_mem_rows

end Source

end Esoterica
