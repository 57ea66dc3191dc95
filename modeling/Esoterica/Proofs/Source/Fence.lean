import Esoterica.Program
import Esoterica.Proofs.Befunge.Walk
import Esoterica.Proofs.Malbolge.Loader
import Esoterica.Proofs.Source.Rows
import Esoterica.Proofs.Whitespace.RoundTrip

/-!
Programs between fences. All line breaks before the lower fence go with it. Brainfuck and Malbolge do
not notice; a Befunge program loses the blank rows at its end, and a Whitespace program in blanks loses
the linefeeds with which its last instruction ends.
-/

namespace Esoterica

namespace Source

/-- A text between two fences, the upper one with a tag. -/
def fenced (tag body : String) : String :=
  String.ofList (fence ++ tag.toList ++ '\n' :: (body.toList ++ '\n' :: fence))

/-- A text right between two fences, below a tag line. -/
def enclosed (tag body : String) : String :=
  String.ofList (fence ++ (tag.toList ++ '\n' :: body.toList) ++ fence)

/-- The standard form of a text without fences. -/
def standardForm (language : Language) (chars : List Char) : List Char :=
  match language with
  | .whitespace => expandMarks chars
  | .befunge => cleanLines chars
  | .brainfuck | .malbolge | .piet => chars

/-- The text keeps its meaning without the line breaks at its end: in Whitespace, because it is spelled
in letters or because there is no linefeed among these line breaks; in Befunge, because it does not end
with two blank rows. -/
def SurvivesFence : Language → List Char → Prop
  | .whitespace, chars =>
    (∃ c ∈ chars, (markedBlank? c).isSome) ∨ '\n' ∉ chars.rtakeWhile isBreak
  | .befunge, chars => ¬ [[], []] <:+ rows chars
  | .brainfuck, _ | .malbolge, _ | .piet, _ => True

theorem normalize_eq (language : Language) (source : String) :
    normalize language source =
      String.ofList (standardForm language (unfence source.toList)) := by
  cases language <;> rfl

theorem unfence_of_notMem {source : List Char} (plain : '\x60' ∉ source) :
    unfence source = source := by
  rw [unfence, if_neg]
  intro fences
  simp only [Bool.and_eq_true, List.isPrefixOf_iff_prefix] at fences
  have first : '\x60' ∈ Text.trim source := fences.1.1.subset (by simp [fence])
  have kept : Text.trim source ⊆ source := by
    intro c member
    exact (List.dropWhile_suffix _).subset ((List.rdropWhile_prefix _ _).subset member)
  exact plain (kept first)

theorem trim_fences (inner : List Char) :
    Text.trim (fence ++ inner ++ fence) = fence ++ inner ++ fence := by
  have front : (fence ++ inner ++ fence).dropWhile Text.isBlank = fence ++ inner ++ fence := rfl
  have back : fence ++ inner ++ fence = fence ++ inner ++ ['\x60', '\x60'] ++ ['\x60'] := by
    simp [fence]
  rw [Text.trim, front, back]
  exact List.rdropWhile_concat_neg _ _ _ (by decide)

theorem unfence_fences (inner : List Char) :
    unfence (fence ++ inner ++ fence) = unfenced inner := by
  have upper : fence.isPrefixOf (fence ++ inner ++ fence) := by
    rw [List.isPrefixOf_iff_prefix, List.append_assoc]
    exact List.prefix_append _ _
  have lower : fence.isSuffixOf (fence ++ inner ++ fence) := by
    rw [List.isSuffixOf_iff_suffix]
    exact List.suffix_append _ _
  have enough : 2 * fence.length ≤ (fence ++ inner ++ fence).length := by
    simp only [List.length_append]
    omega
  have between : ((fence ++ inner ++ fence).drop fence.length).take
      ((fence ++ inner ++ fence).length - 2 * fence.length) = inner := by
    have size : (fence ++ inner ++ fence).length - 2 * fence.length = inner.length := by
      simp only [List.length_append]
      omega
    rw [size, List.append_assoc, List.drop_left, List.take_left]
  have stripped : (fence.isPrefixOf (fence ++ inner ++ fence) &&
      fence.isSuffixOf (fence ++ inner ++ fence) &&
      2 * fence.length ≤ (fence ++ inner ++ fence).length) = true := by
    rw [upper, lower, decide_eq_true enough]
    rfl
  rw [unfence, trim_fences, if_pos stripped, between]

/-- Of a text between fences the line breaks at its end are lost. -/
theorem unfence_enclosed {tag : String} (oneLine : '\n' ∉ tag.toList) (body : String) :
    unfence (enclosed tag body).toList = body.toList.rdropWhile isBreak := by
  have tagged : (tag.toList ++ '\n' :: body.toList).dropWhile (· != '\n') = '\n' :: body.toList := by
    rw [List.dropWhile_append_of_pos]
    · rfl
    · intro c member
      exact bne_iff_ne.2 (ne_of_mem_of_not_mem member oneLine)
  rw [enclosed, String.toList_ofList, unfence_fences, unfenced, tagged]
  rfl

theorem unfence_fenced {tag : String} (oneLine : '\n' ∉ tag.toList) (body : String) :
    unfence (fenced tag body).toList = body.toList.rdropWhile isBreak := by
  have text : fenced tag body = enclosed tag (body ++ "\n") := by
    simp [fenced, enclosed]
  rw [text, unfence_enclosed oneLine, String.toList_append]
  exact List.rdropWhile_concat_pos _ _ _ rfl

/-- The line breaks that a fence takes away stand at the end. -/
theorem breaks_split (chars : List Char) :
    ∃ breaks, chars = chars.rdropWhile isBreak ++ breaks ∧ breaks = chars.rtakeWhile isBreak ∧
      ∀ c ∈ breaks, c = '\n' ∨ c = '\r' := by
  refine ⟨_, List.rdropWhile_append_rtakeWhile.symm, rfl, ?_⟩
  intro c member
  simpa [isBreak] using List.mem_rtakeWhile_imp member

/-- No part of a text without letters is changed. -/
theorem expandMarks_of_subset {chars text : List Char}
    (unmarked : ¬ ∃ c ∈ chars, (markedBlank? c).isSome) (part : text ⊆ chars) :
    expandMarks text = text := by
  rw [expandMarks, if_neg]
  intro marked
  obtain ⟨c, member, isMark⟩ := List.any_eq_true.1 marked
  exact unmarked ⟨c, part member, isMark⟩

/-- In a text with letters, line breaks are dropped wherever they stand. -/
theorem expandMarks_rdropWhile {chars : List Char}
    (marked : ∃ c ∈ chars, (markedBlank? c).isSome) :
    expandMarks (chars.rdropWhile isBreak) = expandMarks chars := by
  obtain ⟨c, member, isMark⟩ := marked
  obtain ⟨breaks, split, -, onlyBreaks⟩ := breaks_split chars
  have unmarked : ∀ c ∈ breaks, markedBlank? c = none := by
    intro c member
    rcases onlyBreaks c member with rfl | rfl <;> rfl
  have kept : c ∈ chars.rdropWhile isBreak := by
    rw [split, List.mem_append] at member
    apply member.resolve_right
    intro lost
    simp [unmarked c lost] at isMark
  have expanded {text : List Char} (member : c ∈ text) :
      expandMarks text = text.filterMap markedBlank? :=
    if_pos (List.any_eq_true.2 ⟨c, member, isMark⟩)
  rw [expanded kept, expanded member]
  nth_rewrite 2 [split]
  rw [List.filterMap_append, List.filterMap_eq_nil_iff.2 unmarked, List.append_nil]

end Source

namespace Brainfuck

/-- Blanks at the end of a source are comments, in a strict reading too. -/
theorem scan_append_blanks (strict : Bool) (position : Nat) (chars : List Char) {blanks : List Char}
    (comments : ∀ c ∈ blanks, Op.ofChar? c = none ∧ Text.isBlank c) :
    scan strict position (chars ++ blanks) = scan strict position chars := by
  induction chars generalizing position with
  | nil =>
      induction blanks generalizing position with
      | nil => rfl
      | cons c blanks inductionHypothesis =>
          obtain ⟨noOp, blank⟩ := comments c List.mem_cons_self
          have later := inductionHypothesis
            (fun c member => comments c (List.mem_cons_of_mem _ member)) (position + 1)
          simpa [scan, noOp, blank] using later
  | cons c chars inductionHypothesis =>
      simp only [List.cons_append, scan, inductionHypothesis]

theorem load_rdropWhile_isBreak (options : Options) (chars : List Char) :
    Program.load options (String.ofList (chars.rdropWhile Source.isBreak)) =
      Program.load options (String.ofList chars) := by
  obtain ⟨breaks, split, -, onlyBreaks⟩ := Source.breaks_split chars
  have comments : ∀ c ∈ breaks, Op.ofChar? c = none ∧ Text.isBlank c := by
    intro c member
    rcases onlyBreaks c member with rfl | rfl <;> exact ⟨rfl, rfl⟩
  have scanned := scan_append_blanks options.strict 0 (chars.rdropWhile Source.isBreak) comments
  rw [← split] at scanned
  simp only [Program.load, Program.parse, String.toList_ofList, scanned]

end Brainfuck

namespace Malbolge

theorem load_rdropWhile_isBreak (options : Options) (chars : List Char) :
    Program.load options (String.ofList (chars.rdropWhile Source.isBreak)) =
      Program.load options (String.ofList chars) := by
  obtain ⟨breaks, split, -, onlyBreaks⟩ := Source.breaks_split chars
  have nothing : breaks.filter (fun c => !Text.isBlank c) = [] := by
    rw [List.filter_eq_nil_iff]
    intro c member
    rcases onlyBreaks c member with rfl | rfl <;> decide
  apply load_eq_of_letters
  rw [letters, letters, String.toList_ofList, String.toList_ofList]
  nth_rewrite 2 [split]
  rw [List.filter_append, nothing, List.append_nil]

end Malbolge

namespace Whitespace

theorem tokens_append_comments (position : Nat) (chars : List Char) {comments : List Char}
    (noSymbol : ∀ c ∈ comments, Symbol.ofChar? c = none) :
    tokens position (chars ++ comments) = tokens position chars := by
  induction chars generalizing position with
  | nil =>
      induction comments generalizing position with
      | nil => rfl
      | cons c comments inductionHypothesis =>
          have later := inductionHypothesis
            (fun c member => noSymbol c (List.mem_cons_of_mem _ member)) (position + 1)
          simpa [tokens, noSymbol c List.mem_cons_self] using later
  | cons c chars inductionHypothesis =>
      simp only [List.cons_append, tokens, inductionHypothesis]

/-- No spelling of instructions begins another spelling of them. -/
theorem Spells.eq_nil_of_append {ops : List Op} {symbols more : List Symbol}
    (spells : Spells ops symbols) (longer : Spells ops (symbols ++ more))
    (fits : ∀ op ∈ ops, op.Fits) : more = [] := by
  induction spells with
  | nil =>
      generalize equal : [] ++ more = all at longer
      cases longer
      exact equal
  | @cons op ops first rest spelled others inductionHypothesis =>
      generalize equal : first ++ rest ++ more = all at longer
      cases longer with
      | @cons _ _ second tail spelledToo othersToo =>
          have fitsFirst : op.Fits := fits op List.mem_cons_self
          -- Both spellings are read off the same symbols, so they leave the same symbols.
          have read (used after : List Symbol) (spelled : op.Spelled used) :
              readOp commands 0 ((used ++ after).map (·, 0)) = .ok (op, after.map (·, 0)) := by
            rw [readOp_eq_ok_iff]
            refine ⟨⟨used, spelled, used.map (·, 0), ?_, List.map_append⟩, fitsFirst⟩
            simp [Function.comp_def]
          have left : tail = rest ++ more := by
            have readTwice := read first (rest ++ more) spelled
            rw [← List.append_assoc, equal, read second tail spelledToo] at readTwice
            have same := congrArg (List.map Prod.fst) (Prod.mk.inj (Except.ok.inj readTwice)).2
            simpa only [List.map_map, Function.comp_def, List.map_id'] using same
          subst left
          exact inductionHypothesis othersToo fun op member => fits op (List.mem_cons_of_mem _ member)

theorem load_of_tokens {options : Options} {source text : String}
    (same : tokens 0 source.toList = tokens 0 text.toList) :
    Program.load options source = Program.load options text := by
  simp only [Program.load, Program.parse, same]

/-- A program in letters, or one with no linefeed at its end to lose, loses nothing. -/
theorem load_expandMarks_rdropWhile {options : Options} {chars : List Char}
    (survives : (∃ c ∈ chars, (Source.markedBlank? c).isSome) ∨
      '\n' ∉ chars.rtakeWhile Source.isBreak) :
    Program.load options (String.ofList (Source.expandMarks (chars.rdropWhile Source.isBreak))) =
      Program.load options (String.ofList (Source.expandMarks chars)) := by
  by_cases marked : ∃ c ∈ chars, (Source.markedBlank? c).isSome
  · rw [Source.expandMarks_rdropWhile marked]
  · have noLinefeed := survives.resolve_left marked
    obtain ⟨breaks, split, lost, onlyBreaks⟩ := Source.breaks_split chars
    have comments : ∀ c ∈ breaks, Symbol.ofChar? c = none := by
      intro c member
      rcases onlyBreaks c member with rfl | rfl
      · exact (noLinefeed (lost ▸ member)).elim
      · rfl
    have read := tokens_append_comments 0 (chars.rdropWhile Source.isBreak) comments
    rw [← split] at read
    rw [Source.expandMarks_of_subset marked (List.rdropWhile_prefix _ _).subset,
      Source.expandMarks_of_subset marked (List.Subset.refl chars)]
    apply load_of_tokens
    rw [String.toList_ofList, String.toList_ofList, read]

/-- A program in blanks is not the same without the linefeeds at its end. -/
theorem survives_of_load {options : Options} {chars : List Char} {inside alone : Program}
    (loadedInside : Program.load options
      (String.ofList (Source.expandMarks (chars.rdropWhile Source.isBreak))) = .ok inside)
    (loadedAlone : Program.load options (String.ofList (Source.expandMarks chars)) = .ok alone)
    (same : inside.ops = alone.ops) :
    (∃ c ∈ chars, (Source.markedBlank? c).isSome) ∨ '\n' ∉ chars.rtakeWhile Source.isBreak := by
  rw [or_iff_not_imp_left]
  intro unmarked linefeed
  obtain ⟨breaks, split, lost, _⟩ := Source.breaks_split chars
  rw [Source.expandMarks_of_subset unmarked (List.rdropWhile_prefix _ _).subset] at loadedInside
  rw [Source.expandMarks_of_subset unmarked (List.Subset.refl chars)] at loadedAlone
  obtain ⟨spells, loadable⟩ := loadable_of_parse (load_eq_ok_iff.1 loadedInside).2
  obtain ⟨longer, _⟩ := loadable_of_parse (load_eq_ok_iff.1 loadedAlone).2
  rw [← same, symbols, String.toList_ofList, split, List.filterMap_append] at longer
  rw [symbols, String.toList_ofList] at spells
  have nothing := spells.eq_nil_of_append longer loadable.fits
  have symbol := List.filterMap_eq_nil_iff.1 nothing '\n' (lost ▸ linefeed)
  cases symbol

end Whitespace

namespace Befunge

theorem two_blanks_suffix_concat_iff {rows : List (List Char)} {row : List Char} :
    [[], []] <:+ rows ++ [row] ↔ row = [] ∧ rows.getLast? = some [] := by
  constructor
  · rintro ⟨front, equal⟩
    have ends : (front ++ [[]]) ++ [[]] = rows ++ [row] := by simpa using equal
    obtain ⟨rfl, last⟩ := List.append_inj' ends rfl
    exact ⟨(List.singleton_injective last).symm, List.getLast?_concat⟩
  · rintro ⟨rfl, last⟩
    obtain ⟨front, rfl⟩ := List.getLast?_eq_some_iff.1 last
    exact ⟨front, by simp⟩

/-- Rows keep the same without all blank ones at their end as without the last, unless they end with
two. -/
theorem rdropWhile_isEmpty_eq_iff (rows : List (List Char)) :
    rows.rdropWhile List.isEmpty = Text.dropLastBlank rows ↔ ¬ [[], []] <:+ rows := by
  rcases List.eq_nil_or_concat' rows with rfl | ⟨rows, row, rfl⟩
  · simp [Text.dropLastBlank]
  · rw [Text.dropLastBlank, List.getLast?_concat, List.dropLast_concat,
      two_blanks_suffix_concat_iff]
    cases row with
    | nil =>
        rw [List.rdropWhile_concat_pos _ _ _ rfl, if_pos rfl, List.rdropWhile_eq_self_iff]
        rcases List.eq_nil_or_concat' rows with rfl | ⟨rows, row, rfl⟩ <;> simp
    | cons c row =>
        have full : ¬ (c :: row).isEmpty := by simp
        rw [List.rdropWhile_concat_neg _ _ _ full]
        simp

theorem dropLastBlank_rdropWhile (rows : List (List Char)) :
    Text.dropLastBlank (rows.rdropWhile List.isEmpty) = rows.rdropWhile List.isEmpty :=
  if_neg (Text.getLast?_rdropWhile_isEmpty rows)

/-- One cell for each character of these rows. -/
def Field.ofRows (rows : List (List Char)) : Field :=
  ⟨(rows.map fun row => (row.map Word.ofChar).toArray).toArray⟩

/-- No two lists of rows fill a field alike. -/
theorem ofRows_inj {first second : List (List Char)} :
    Field.ofRows first = Field.ofRows second ↔ first = second := by
  have codes : Function.Injective Word.ofChar := fun _ _ => Word.ofChar_inj.1
  have injective : Function.Injective fun row : List Char => (row.map Word.ofChar).toArray :=
    fun _ _ equal => codes.list_map (List.toArray_inj equal)
  constructor
  · intro equal
    exact injective.list_map (List.toArray_inj (Field.mk.inj equal))
  · intro same
    rw [same]

theorem ofSource_eq_iff {source text : String} :
    Field.ofSource source = Field.ofSource text ↔
      Text.lines source.toList = Text.lines text.toList :=
  ofRows_inj

/-- Without the line breaks at its end a text fills the field as it does with them, unless it ends with
two blank rows. -/
theorem ofSource_rdropWhile_eq_iff (chars : List Char) :
    Field.ofSource (String.ofList (Source.cleanLines (chars.rdropWhile Source.isBreak))) =
      Field.ofSource (String.ofList (Source.cleanLines chars)) ↔
        ¬ [[], []] <:+ Source.rows chars := by
  rw [ofSource_eq_iff, String.toList_ofList, String.toList_ofList, Source.lines_cleanLines,
    Source.lines_cleanLines, Source.rows_rdropWhile, dropLastBlank_rdropWhile,
    rdropWhile_isEmpty_eq_iff]

end Befunge

/-- Two programs that cannot be told apart when they run: the same instructions, rows, memory or
codels. -/
def Program.Same : Program → Program → Prop
  | .brainfuck first, .brainfuck second => first.ops = second.ops
  | .befunge first, .befunge second => first.rows = second.rows
  | .malbolge first, .malbolge second => first.image = second.image
  | .whitespace first, .whitespace second => first.ops = second.ops
  | .piet first, .piet second => first = second
  | _, _ => False

/-- Two loadings give the same program or fail in the same way. -/
def LoadsAlike : Except Error Program → Except Error Program → Prop
  | .ok first, .ok second => first.Same second
  | .error first, .error second => first.kind = second.kind
  | _, _ => False

theorem LoadsAlike.isOk_eq : ∀ {first second : Except Error Program},
    LoadsAlike first second → first.isOk = second.isOk
  | .ok _, .ok _, _ => rfl
  | .error _, .error _, _ => rfl
  | .ok _, .error _, alike => alike.elim
  | .error _, .ok _, alike => alike.elim

namespace Source

theorem load_rdropWhile_of_survives (options : Options) {language : Language} {chars : List Char}
    (survives : SurvivesFence language chars) :
    Program.load options language
        (String.ofList (standardForm language (chars.rdropWhile isBreak))) =
      Program.load options language (String.ofList (standardForm language chars)) := by
  cases language with
  | brainfuck =>
      exact congrArg (Except.map Program.brainfuck) (Brainfuck.load_rdropWhile_isBreak options chars)
  | befunge =>
      have sameField := (Befunge.ofSource_rdropWhile_eq_iff chars).2 survives
      simp only [Program.load, Befunge.load, standardForm, sameField]
  | malbolge =>
      exact congrArg (Except.map Program.malbolge) (Malbolge.load_rdropWhile_isBreak options chars)
  | whitespace =>
      exact congrArg (Except.map Program.whitespace) (Whitespace.load_expandMarks_rdropWhile survives)
  | piet => rfl

theorem survives_of_loadsAlike {options : Options} {language : Language} {chars : List Char}
    {program : Program}
    (loaded : Program.load options language (String.ofList (standardForm language chars)) =
      .ok program)
    (alike : LoadsAlike (Program.load options language
        (String.ofList (standardForm language (chars.rdropWhile isBreak)))) (.ok program)) :
    SurvivesFence language chars := by
  cases inside : Program.load options language
      (String.ofList (standardForm language (chars.rdropWhile isBreak))) with
  | error error => simp [inside, LoadsAlike] at alike
  | ok partner =>
      rw [inside] at alike
      cases language with
      | brainfuck | malbolge | piet => trivial
      | befunge =>
          obtain ⟨field, loadedAlone, rfl⟩ := map_eq_ok_iff.1 loaded
          obtain ⟨fieldInside, loadedInside, rfl⟩ := map_eq_ok_iff.1 inside
          obtain ⟨_, rfl⟩ := Befunge.load_eq_ok_iff.1 loadedAlone
          obtain ⟨_, rfl⟩ := Befunge.load_eq_ok_iff.1 loadedInside
          exact (Befunge.ofSource_rdropWhile_eq_iff chars).1 (congrArg Befunge.Field.mk alike)
      | whitespace =>
          obtain ⟨whole, loadedAlone, rfl⟩ := map_eq_ok_iff.1 loaded
          obtain ⟨part, loadedInside, rfl⟩ := map_eq_ok_iff.1 inside
          exact Whitespace.survives_of_load loadedInside loadedAlone alike

/-- A text in fences loads as it does without them if it keeps its meaning without the line breaks at
its end. If it does not and is a program, then in fences it is another one, or none. -/
theorem fence_keeps_survivors_only (options : Options) (language : Language) {tag body : String}
    (oneLine : '\n' ∉ tag.toList) (plain : '\x60' ∉ body.toList) :
    let inside := Program.load options language (normalize language (fenced tag body))
    let alone := Program.load options language (normalize language body)
    (SurvivesFence language body.toList → inside = alone) ∧
      ∀ program, alone = .ok program → LoadsAlike inside alone →
        SurvivesFence language body.toList := by
  intro inside alone
  have insideForm : inside = Program.load options language
      (String.ofList (standardForm language (body.toList.rdropWhile isBreak))) := by
    simp only [inside, normalize_eq, unfence_fenced oneLine]
  have aloneForm : alone = Program.load options language
      (String.ofList (standardForm language body.toList)) := by
    simp only [alone, normalize_eq, unfence_of_notMem plain]
  rw [insideForm, aloneForm]
  constructor
  · exact load_rdropWhile_of_survives options
  · intro program loaded alike
    exact survives_of_loadsAlike loaded (loaded ▸ alike)

/-- A program in letters survives, whatever line breaks follow. A grid that reads below its last
row that is not blank does not. -/
theorem fence_keeps_letters_not_rows :
    let letters := "SSSTL\nLLL\n\n"
    let grid := "01g.@\n\n\n"
    let loaded (language : Language) (text : String) :=
      Program.load {} language (normalize language text)
    '\n' ∉ "text".toList ∧ '\x60' ∉ letters.toList ∧ '\x60' ∉ grid.toList ∧
      loaded .whitespace (fenced "text" letters) = loaded .whitespace letters ∧
      ¬ LoadsAlike (loaded .befunge (fenced "text" grid)) (loaded .befunge grid) := by
  intro letters grid loaded
  have oneLine : '\n' ∉ "text".toList := by decide
  have plainLetters : '\x60' ∉ letters.toList := by decide
  have plainGrid : '\x60' ∉ grid.toList := by decide
  have marked : SurvivesFence .whitespace letters.toList := .inl ⟨'S', by decide, rfl⟩
  have lossy : ¬ SurvivesFence .befunge grid.toList := not_not_intro (by decide)
  refine ⟨oneLine, plainLetters, plainGrid, ?_, ?_⟩
  · exact (fence_keeps_survivors_only {} .whitespace oneLine plainLetters).1 marked
  · intro alike
    exact lossy ((fence_keeps_survivors_only {} .befunge oneLine plainGrid).2 _ rfl alike)

/-- Not every program is kept by a fence. This one prints a letter and ends with the three linefeeds
of an exit, which a fence takes away. -/
theorem not_every_program_survives_fence :
    ¬ ∀ (options : Options) (language : Language) (tag body : String),
      options.Valid → language.isText → '\n' ∉ tag.toList → '\r' ∉ tag.toList →
        '\x60' ∉ tag.toList → '\x60' ∉ body.toList →
          LoadsAlike (Program.load options language (normalize language (fenced tag body)))
            (Program.load options language (normalize language body)) := by
  intro kept
  have alike := kept {} .whitespace "" "   \t     \t\n\t\n  \n\n\n" (by decide) rfl
    (by decide) (by decide) (by decide) (by decide)
  exact absurd alike.isOk_eq (by decide +kernel)

end Source

end Esoterica
