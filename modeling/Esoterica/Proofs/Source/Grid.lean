import Esoterica.Proofs.Source.Fence

/-!
What the standard form of a grid does to its rows. They are joined with linefeeds between them and split
again, which loses a blank row at the end. That happens to the texts whose last line holds nothing but
carriage returns, and never to one between fences with a tag line.
-/

namespace Esoterica

namespace Text

/-- Nothing, or lines with a linefeed behind the last of them. -/
def WholeLines (chars : List Char) : Prop :=
  chars = [] ∨ chars.getLast? = some '\n'

/-- Lines end where a text ends with a linefeed, whatever follows it. -/
theorem lines_append {front : List Char} (whole : WholeLines front) (rest : List Char) :
    lines (front ++ rest) = lines front ++ lines rest := by
  induction size : front.length using Nat.strongRecOn generalizing front with
  | ind length inductionHypothesis =>
      obtain empty | last := whole
      · rw [empty]
        rfl
      · obtain ⟨line, more, rfl, oneLine⟩ := List.eq_append_cons_of_mem (List.mem_of_getLast? last)
        have later : WholeLines more := by
          cases more with
          | nil => exact .inl rfl
          | cons c more =>
              right
              simpa using last
        have shorter : more.length < length := by
          rw [← size, List.length_append, List.length_cons]
          omega
        rw [List.append_assoc, List.cons_append, lines_append_linefeed oneLine,
          lines_append_linefeed oneLine, inductionHypothesis more.length shorter later rfl,
          List.cons_append]

/-- A text is cut behind its last linefeed. -/
theorem exists_behind_linefeed (chars : List Char) :
    ∃ front line, chars = front ++ line ∧ WholeLines front ∧ '\n' ∉ line := by
  let front := chars.rdropWhile (· != '\n')
  have split : chars = front ++ chars.rtakeWhile (· != '\n') :=
    List.rdropWhile_append_rtakeWhile.symm
  refine ⟨front, chars.rtakeWhile (· != '\n'), split, ?_, ?_⟩
  · by_cases empty : front = []
    · exact .inl empty
    · right
      have last := List.rdropWhile_last_not (· != '\n') chars empty
      rw [List.getLast?_eq_some_getLast empty]
      simpa using last
  · intro member
    simpa using List.mem_rtakeWhile_imp member

/-- The text has this last line behind its other lines, with a linefeed at the end or not. -/
structure LastLine (chars front line : List Char) : Prop where
  whole : WholeLines front
  oneLine : '\n' ∉ line
  text : chars = front ++ (line ++ ['\n']) ∨ chars = front ++ line ∧ line ≠ []

/-- A text that is not empty has a last line. -/
theorem exists_lastLine {chars : List Char} (nonempty : chars ≠ []) :
    ∃ front line, LastLine chars front line := by
  by_cases linefeed : chars.getLast? = some '\n'
  · obtain ⟨before, rfl⟩ := List.getLast?_eq_some_iff.1 linefeed
    obtain ⟨front, line, rfl, whole, oneLine⟩ := exists_behind_linefeed before
    exact ⟨front, line, whole, oneLine, .inl (List.append_assoc _ _ _)⟩
  · obtain ⟨front, line, rfl, whole, oneLine⟩ := exists_behind_linefeed chars
    have behind : line ≠ [] := by
      intro nothing
      rw [nothing, List.append_nil] at nonempty linefeed
      exact whole.elim nonempty linefeed
    exact ⟨front, line, whole, oneLine, .inr ⟨rfl, behind⟩⟩

end Text

namespace Source

/-- The last line of a text holds nothing but carriage returns. -/
def EndsBlank (chars : List Char) : Prop :=
  ∃ front line, Text.LastLine chars front line ∧ ∀ c ∈ line, c = '\r'

theorem cleanLine_eq_nil_iff {line : List Char} : cleanLine line = [] ↔ ∀ c ∈ line, c = '\r' := by
  have trimmed : Text.trimEnd (· == '\r') line = line.rdropWhile (· == '\r') := rfl
  rw [cleanLine, List.map_eq_nil_iff, trimmed, List.rdropWhile_eq_nil_iff]
  simp

theorem rows_lastLine {chars front line : List Char} (last : Text.LastLine chars front line) :
    rows chars = rows front ++ [cleanLine line] := by
  obtain closed | ⟨bare, nonempty⟩ := last.text
  · rw [closed, rows, rows, Text.lines_append last.whole, Text.lines_append_linefeed last.oneLine,
      List.map_append, List.map_cons, cleanLine_continueLine rfl]
    rfl
  · rw [bare, rows, rows, Text.lines_append last.whole, Text.lines_of_one_line last.oneLine nonempty,
      List.map_append, List.map_singleton]

theorem getLast?_rows_iff {chars : List Char} :
    (rows chars).getLast? = some [] ↔ EndsBlank chars := by
  constructor
  · intro last
    have nonempty : chars ≠ [] := by
      intro nothing
      rw [nothing] at last
      cases last
    obtain ⟨front, line, behind⟩ := Text.exists_lastLine nonempty
    rw [rows_lastLine behind, List.getLast?_concat, Option.some_inj, cleanLine_eq_nil_iff] at last
    exact ⟨front, line, behind, last⟩
  · intro ⟨front, line, behind, onlyReturns⟩
    rw [rows_lastLine behind, List.getLast?_concat, cleanLine_eq_nil_iff.2 onlyReturns]

/-- Behind a tag line no text ends blank, as the line breaks at its end go with the fence. -/
theorem not_endsBlank_unfence_fenced {tag : String} (oneLine : '\n' ∉ tag.toList) (body : String) :
    ¬ EndsBlank (unfence (fenced tag body).toList) := by
  rw [unfence_fenced oneLine, ← getLast?_rows_iff, rows_rdropWhile]
  exact Text.getLast?_rdropWhile_isEmpty _

theorem dropLastBlank_rows_eq_iff {chars : List Char} :
    Text.dropLastBlank (rows chars) = rows chars ↔ ¬ EndsBlank chars := by
  rw [← getLast?_rows_iff, Text.dropLastBlank]
  constructor
  · intro same last
    rw [if_pos last] at same
    obtain ⟨front, equal⟩ := List.getLast?_eq_some_iff.1 last
    rw [equal, List.dropLast_concat, List.self_eq_append_right] at same
    cases same
  · intro notBlank
    rw [if_neg notBlank]

/-- The rows of the standard form are those of the text, but for a blank one at the end. -/
theorem load_normalize_befunge {options : Options} (valid : options.Valid) (source : String) :
    Befunge.load options (normalize .befunge source) =
      .ok (.ofRows (Text.dropLastBlank (rows (unfence source.toList)))) := by
  have text : (normalize .befunge source).toList = cleanLines (unfence source.toList) :=
    String.toList_ofList
  rw [Befunge.load_eq_ok_iff]
  refine ⟨valid, ?_⟩
  rw [← lines_cleanLines, ← text]
  rfl

/-- A grid in standard form has the rows of its text without fences, each without the carriage returns at
its end and with blanks for tabs, in their order and number; except that a blank row at the end is lost.
So all rows stay exactly if the last line does not hold carriage returns alone, and all stay between
fences with a tag line. -/
theorem grid_loses_last_blank_row (options : Options) (valid : options.Valid) (source : String) :
    let body := unfence source.toList
    ∃ field, Befunge.load options (normalize .befunge source) = .ok field ∧
      field = .ofRows (Text.dropLastBlank (rows body)) ∧
      (field = .ofRows (rows body) ↔ ¬ EndsBlank body) ∧
      ∀ tag text, '\n' ∉ tag.toList → source = fenced tag text → field = .ofRows (rows body) := by
  intro body
  have kept : Befunge.Field.ofRows (Text.dropLastBlank (rows body)) = .ofRows (rows body) ↔
      ¬ EndsBlank body := by
    rw [Befunge.ofRows_inj, dropLastBlank_rows_eq_iff]
  refine ⟨_, load_normalize_befunge valid source, rfl, kept, ?_⟩
  intro tag text oneLine between
  rw [kept]
  simp only [body, between]
  exact not_endsBlank_unfence_fenced oneLine text

/-- The row below the program is read by it, and lost. -/
theorem grid_loses_row_below :
    let source := "01g.@\n\n"
    let body := unfence source.toList
    ({} : Options).Valid ∧ EndsBlank body ∧
      ∃ field, Befunge.load {} (normalize .befunge source) = .ok field ∧
        field ≠ .ofRows (rows body) ∧ field.height = 1 ∧ (rows body).length = 2 := by
  intro source body
  have valid : ({} : Options).Valid := by decide
  have blank : EndsBlank body := getLast?_rows_iff.1 (by decide)
  obtain ⟨field, loaded, equal, kept, _⟩ := grid_loses_last_blank_row {} valid source
  refine ⟨valid, blank, field, loaded, ?_, ?_, ?_⟩
  · intro same
    exact kept.1 same blank
  · rw [equal]
    decide
  · decide

/-- Not every grid keeps its rows. -/
theorem not_every_grid_keeps_rows :
    ¬ ∀ (options : Options) (source : String), options.Valid →
      Befunge.load options (normalize .befunge source) =
        .ok (.ofRows (rows (unfence source.toList))) := by
  intro keeps
  have same := (load_normalize_befunge (by decide) "01g.@\n\n").symm.trans
    (keeps {} "01g.@\n\n" (by decide))
  have rowsSame := Befunge.ofRows_inj.1 (Except.ok.inj same)
  exact absurd rowsSame (by decide)

end Source

end Esoterica
