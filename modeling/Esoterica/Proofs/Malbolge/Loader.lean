import Mathlib.Logic.ExistsUnique
import Esoterica.Proofs.Loading
import Esoterica.Proofs.Malbolge.Memory
import Esoterica.Proofs.Text

/-!
The texts that can be loaded. At each address every instruction has one character that stands for it, so
that programs and lists of instructions correspond to each other, whatever blanks stand in the text.
-/

namespace Esoterica.Malbolge

/-- The text of a program with blanks put in. -/
inductive Spaced : List Char → List Char → Prop where
  | nil : Spaced [] []
  | blank {text source : List Char} {c : Char} (isBlank : Text.isBlank c) (spaced : Spaced text source) :
      Spaced text (c :: source)
  | keep {text source : List Char} (c : Char) (spaced : Spaced text source) :
      Spaced (c :: text) (c :: source)

/-- A character that can stand at an address: there is room for it, it is printable, and there it stands
for an instruction. -/
structure Fits (address : Nat) (c : Char) : Prop where
  room : address < memorySize
  lower : 33 ≤ c.toNat
  upper : c.toNat ≤ 126
  legal : ((c.toNat : Int) + address) % 94 ∈ Op.legal

/-- Every character of a text fits where it comes to stand, if the first one stands at an address. -/
def AllFit (address : Nat) (chars : List Char) : Prop :=
  ∀ index c, chars[index]? = some c → Fits (address + index) c

/-- A program in whose memory the instructions with these values stand one after the other. -/
structure Decodes (program : Program) (values : List Int) : Prop where
  loaded : program.loaded = values.length
  cells : ∀ index value, values[index]? = some value →
    ∃ cell, program.image[index]? = some cell ∧ Op.ofValue? value = some (Op.decode cell index)

/-- The character that stands for a value at an address. -/
def spell (address : Nat) (value : Int) : Char :=
  let code := ((value - address) % 94).toNat
  Char.ofNat (if code < 33 then code + 94 else code)

/-- The text that stands for some values, if the first one stands at an address. -/
def assemble (address : Nat) : List Int → List Char
  | [] => []
  | value :: values => spell address value :: assemble (address + 1) values

/-- The values for which the characters of a text stand, if the first one stands at an address. -/
def disassemble (address : Nat) : List Char → List Int
  | [] => []
  | c :: chars => ((c.toNat : Int) + address) % 94 :: disassemble (address + 1) chars

/-- What is left of a source text without the blanks. -/
def letters (source : String) : List Char :=
  source.toList.filter fun c => !Text.isBlank c

/-- The program with the codes of these characters in its first cells. -/
def programOf (chars : List Char) : Program where
  image := image (chars.map fun c => (c.toNat : Int)).toArray
  loaded := chars.length

section Values

theorem Op.ofValue?_isSome_iff {value : Int} : (Op.ofValue? value).isSome ↔ value ∈ Op.legal := by
  simp only [Op.ofValue?, Op.legal, List.mem_cons, List.not_mem_nil, or_false]
  grind

/-- No two values stand for the same instruction. -/
theorem Op.ofValue?_inj {value other : Int} {op : Op} (first : Op.ofValue? value = some op)
    (second : Op.ofValue? other = some op) : value = other := by
  have distinct : ∀ value ∈ Op.legal, ∀ other ∈ Op.legal,
      Op.ofValue? value = Op.ofValue? other → value = other := by decide
  exact distinct value (Op.ofValue?_isSome_iff.1 (first ▸ rfl)) other
    (Op.ofValue?_isSome_iff.1 (second ▸ rfl)) (first.trans second.symm)

theorem Op.bounds_of_legal {value : Int} (legal : value ∈ Op.legal) : 0 ≤ value ∧ value < 94 := by
  simp only [Op.legal, List.mem_cons, List.not_mem_nil, or_false] at legal
  omega

end Values

section Spaced

variable {text source : List Char}

theorem Spaced.filter_eq (spaced : Spaced text source) :
    source.filter (fun c => !Text.isBlank c) = text.filter fun c => !Text.isBlank c := by
  induction spaced with
  | nil => rfl
  | blank isBlank _ inductionHypothesis => simpa [isBlank] using inductionHypothesis
  | keep c _ inductionHypothesis => rw [List.filter_cons, List.filter_cons, inductionHypothesis]

/-- Every text is what is left of it without blanks, with blanks put in. -/
theorem spaced_filter (source : List Char) :
    Spaced (source.filter fun c => !Text.isBlank c) source := by
  induction source with
  | nil => exact .nil
  | cons c source inductionHypothesis =>
      cases isBlank : Text.isBlank c with
      | true =>
          rw [List.filter_cons_of_neg (by simp [isBlank])]
          exact .blank isBlank inductionHypothesis
      | false =>
          rw [List.filter_cons_of_pos (by simp [isBlank])]
          exact .keep c inductionHypothesis

end Spaced

section Assemble

variable {address : Nat} {c : Char} {value : Int} {values : List Int} {chars : List Char}

/-- Of 94 printable characters in a row, one stands for a given value at an address. -/
theorem eq_spell_iff (lower : 0 ≤ value) (upper : value < 94) :
    c = spell address value ↔
      33 ≤ c.toNat ∧ c.toNat ≤ 126 ∧ ((c.toNat : Int) + address) % 94 = value := by
  have spelled : (spell address value).toNat =
      if ((value - address) % 94).toNat < 33 then ((value - address) % 94).toNat + 94
      else ((value - address) % 94).toNat := by
    refine Text.toNat_ofNat (.inl ?_)
    split <;> omega
  constructor
  · rintro rfl
    rw [spelled]
    split <;> omega
  · rintro ⟨printable, ascii, stands⟩
    have same : c.toNat = (spell address value).toNat := by
      rw [spelled]
      split <;> omega
    rw [← Char.ofNat_toNat c, same, Char.ofNat_toNat]

theorem allFit_cons_iff :
    AllFit address (c :: chars) ↔ Fits address c ∧ AllFit (address + 1) chars := by
  constructor
  · intro fit
    refine ⟨fit 0 c rfl, fun index c there => ?_⟩
    rw [Nat.add_assoc, Nat.add_comm 1]
    exact fit (index + 1) c there
  · rintro ⟨first, rest⟩ index c there
    cases index with
    | zero =>
        cases there
        exact first
    | succ index =>
        rw [Nat.add_comm index, ← Nat.add_assoc]
        exact rest index c there

/-- Legal values have a text wherever there is room for it. -/
theorem allFit_assemble (legal : ∀ value ∈ values, value ∈ Op.legal)
    (room : address + values.length ≤ memorySize) : AllFit address (assemble address values) := by
  induction values generalizing address with
  | nil => simp [AllFit, assemble]
  | cons value values inductionHypothesis =>
      rw [List.length_cons] at room
      have first := legal value List.mem_cons_self
      obtain ⟨lower, upper⟩ := Op.bounds_of_legal first
      obtain ⟨printable, ascii, stands⟩ := (eq_spell_iff lower upper).1 (Eq.refl (spell address value))
      refine allFit_cons_iff.2 ⟨⟨by omega, printable, ascii, by rwa [stands]⟩, ?_⟩
      exact inductionHypothesis (fun value member => legal value (List.mem_cons_of_mem _ member))
        (by omega)

/-- The text of some values stands for these values. -/
theorem disassemble_assemble (legal : ∀ value ∈ values, value ∈ Op.legal) :
    disassemble address (assemble address values) = values := by
  induction values generalizing address with
  | nil => rfl
  | cons value values inductionHypothesis =>
      obtain ⟨lower, upper⟩ := Op.bounds_of_legal (legal value List.mem_cons_self)
      obtain ⟨_, _, stands⟩ := (eq_spell_iff lower upper).1 (Eq.refl (spell address value))
      rw [assemble, disassemble, stands,
        inductionHypothesis fun value member => legal value (List.mem_cons_of_mem _ member)]

/-- No other text of characters that fit stands for the same values. -/
theorem assemble_disassemble (fit : AllFit address chars) :
    assemble address (disassemble address chars) = chars := by
  induction chars generalizing address with
  | nil => rfl
  | cons c chars inductionHypothesis =>
      obtain ⟨first, rest⟩ := allFit_cons_iff.1 fit
      obtain ⟨lower, upper⟩ := Op.bounds_of_legal first.legal
      rw [disassemble, assemble, inductionHypothesis rest,
        ← (eq_spell_iff lower upper).2 ⟨first.lower, first.upper, rfl⟩]

theorem getElem?_disassemble (address : Nat) (chars : List Char) (index : Nat) :
    (disassemble address chars)[index]? =
      chars[index]?.map fun c => ((c.toNat : Int) + (address + index : Nat)) % 94 := by
  induction chars generalizing address index with
  | nil => rfl
  | cons c chars inductionHypothesis =>
      cases index with
      | zero => rfl
      | succ index =>
          rw [disassemble, List.getElem?_cons_succ, List.getElem?_cons_succ, inductionHypothesis,
            Nat.add_assoc, Nat.add_comm 1]

theorem length_disassemble (address : Nat) (chars : List Char) :
    (disassemble address chars).length = chars.length := by
  induction chars generalizing address with
  | nil => rfl
  | cons c chars inductionHypothesis => rw [disassemble, List.length_cons, inductionHypothesis]; rfl

theorem legal_of_mem_disassemble (fit : AllFit address chars) :
    ∀ value ∈ disassemble address chars, value ∈ Op.legal := by
  intro value member
  obtain ⟨index, there⟩ := List.mem_iff_getElem?.1 member
  rw [getElem?_disassemble] at there
  obtain ⟨c, found, rfl⟩ := Option.map_eq_some_iff.1 there
  exact (fit index c found).legal

theorem AllFit.length_le (fit : AllFit 0 chars) : chars.length ≤ memorySize := by
  rcases Nat.eq_zero_or_pos chars.length with empty | positive
  · omega
  · have last := fit (chars.length - 1) _ (List.getElem?_eq_getElem (by omega))
    have room := last.room
    omega

theorem AllFit.not_blank (fit : AllFit address chars) : ∀ c ∈ chars, Text.isBlank c = false := by
  intro c member
  obtain ⟨index, there⟩ := List.mem_iff_getElem?.1 member
  have lower := (fit index c there).lower
  have upper := (fit index c there).upper
  simp only [Text.isBlank, Bool.or_eq_false_iff, Bool.and_eq_false_iff, decide_eq_false_iff_not,
    beq_eq_false_iff_ne]
  omega

end Assemble

section Check

variable {address : Nat} {c : Char} {chars : List Char}

theorem fits_iff : Fits address c ↔ address < memorySize ∧ ¬ (c.toNat < 33 ∨ 126 < c.toNat) ∧
    (Op.ofValue? ((c.toNat + address) % 94 : Nat)).isNone = false := by
  rw [Option.isNone_eq_false_iff, Op.ofValue?_isSome_iff]
  constructor
  · rintro ⟨room, lower, upper, legal⟩
    exact ⟨room, by omega, by exact_mod_cast legal⟩
  · rintro ⟨room, printable, legal⟩
    exact ⟨room, by omega, by omega, by exact_mod_cast legal⟩

/-- Exactly the characters that fit are let through. -/
theorem checkChar_eq_ok_iff {passed : Unit} : checkChar address c = .ok passed ↔ Fits address c := by
  rw [fits_iff]
  unfold checkChar
  simp only
  split
  · simp only [reduceCtorEq, false_iff]
    omega
  · rename_i room
    split
    · simp only [reduceCtorEq, false_iff]
      omega
    · rename_i printable
      cases (Op.ofValue? ((c.toNat + address) % 94 : Nat)).isNone with
      | true => simp
      | false => simp [Nat.lt_of_not_le room, printable]

/-- Every other character is refused with the address at which it would stand. -/
theorem checkChar_refuses {error : Error} (refused : checkChar address c = .error error) :
    error.kind = .invalidInstruction ∧ error.lookup "position" = some (toString address) := by
  unfold checkChar at refused
  simp only at refused
  split at refused
  · cases refused
    exact ⟨rfl, rfl⟩
  · split at refused
    · cases refused
      exact ⟨rfl, rfl⟩
    · split at refused
      · cases refused
        exact ⟨rfl, rfl⟩
      · cases refused

theorem loadCells_eq_ok_iff {cells : List Int} :
    loadCells address chars = .ok cells ↔
      AllFit address chars ∧ cells = chars.map fun c => (c.toNat : Int) := by
  induction chars generalizing address cells with
  | nil =>
      simp only [loadCells, Except.ok.injEq, List.map_nil]
      constructor
      · rintro rfl
        exact ⟨by simp [AllFit], rfl⟩
      · exact fun loaded => loaded.2.symm
  | cons c chars inductionHypothesis =>
      rw [loadCells, bind_eq_ok_iff, allFit_cons_iff]
      constructor
      · rintro ⟨_, checked, loaded⟩
        obtain ⟨rest, loadedRest, equal⟩ := bind_eq_ok_iff.1 loaded
        obtain ⟨fit, rfl⟩ := inductionHypothesis.1 loadedRest
        cases equal
        exact ⟨⟨checkChar_eq_ok_iff.1 checked, fit⟩, rfl⟩
      · rintro ⟨⟨fits, fit⟩, rfl⟩
        refine ⟨(), checkChar_eq_ok_iff.2 fits, bind_eq_ok_iff.2 ?_⟩
        exact ⟨_, inductionHypothesis.2 ⟨fit, rfl⟩, rfl⟩

/-- A text that cannot be loaded is refused at the first character that does not fit. -/
theorem loadCells_refuses {error : Error} (refused : loadCells address chars = .error error) :
    ∃ before c after, chars = before ++ c :: after ∧ AllFit address before ∧
      checkChar (address + before.length) c = .error error := by
  induction chars generalizing address with
  | nil => cases refused
  | cons c chars inductionHypothesis =>
      rw [loadCells] at refused
      cases checked : checkChar address c with
      | error first =>
          rw [checked] at refused
          cases refused
          exact ⟨[], c, chars, rfl, by simp [AllFit], checked⟩
      | ok passed =>
          have fits := checkChar_eq_ok_iff.1 checked
          cases loaded : loadCells (address + 1) chars with
          | ok cells =>
              rw [checked, loaded] at refused
              cases refused
          | error later =>
              rw [checked, loaded] at refused
              cases refused
              obtain ⟨before, bad, after, rfl, fit, atFault⟩ := inductionHypothesis loaded
              refine ⟨c :: before, bad, after, rfl, allFit_cons_iff.2 ⟨fits, fit⟩, ?_⟩
              rw [List.length_cons, Nat.add_comm before.length, ← Nat.add_assoc]
              exact atFault

end Check

section Load

variable {options : Options} {source : String} {program : Program} {chars : List Char}

theorem load_eq_ok_iff :
    Program.load options source = .ok program ↔
      options.Valid ∧ AllFit 0 (letters source) ∧ program = programOf (letters source) := by
  simp only [Program.load, Program.parse, bind_eq_ok_iff, Options.validate_eq_ok_iff,
    loadCells_eq_ok_iff, exists_const]
  refine and_congr_right fun _ => ?_
  constructor
  · rintro ⟨cells, ⟨fit, rfl⟩, loaded⟩
    rw [← Except.ok.inj loaded]
    exact ⟨fit, by simp only [programOf, List.length_map, letters]⟩
  · rintro ⟨fit, rfl⟩
    refine ⟨_, ⟨fit, rfl⟩, ?_⟩
    simp only [programOf, List.length_map, letters, pure, Except.pure]

/-- Only what is left without the blanks matters. -/
theorem load_eq_of_letters {text : String} (same : letters source = letters text) :
    Program.load options source = Program.load options text := by
  unfold letters at same
  simp only [Program.load, Program.parse, same]

theorem letters_ofList (notBlank : ∀ c ∈ chars, Text.isBlank c = false) :
    letters (String.ofList chars) = chars := by
  rw [letters, String.toList_ofList, List.filter_eq_self]
  intro c member
  rw [notBlank c member]
  rfl

theorem load_refuses {error : Error} (valid : options.Valid)
    (refused : Program.load options source = .error error) :
    ∃ before c after, letters source = before ++ c :: after ∧ AllFit 0 before ∧
      checkChar before.length c = .error error := by
  have validated : options.validate = .ok () := Options.validate_eq_ok_iff.2 valid
  cases loaded : loadCells 0 (letters source) with
  | ok cells =>
      have accepted : Program.load options source = .ok _ :=
        load_eq_ok_iff.2 ⟨valid, (loadCells_eq_ok_iff.1 loaded).1, rfl⟩
      rw [refused] at accepted
      cases accepted
  | error first =>
      have refusedFirst : Program.load options source = .error first := by
        unfold letters at loaded
        simp only [Program.load, Program.parse, validated, loaded, bind, Except.bind]
      rw [refused] at refusedFirst
      cases refusedFirst
      obtain ⟨before, c, after, equal, fit, atFault⟩ := loadCells_refuses loaded
      exact ⟨before, c, after, equal, fit, by rwa [Nat.zero_add] at atFault⟩

/-- What the first cells hold is read off the text. -/
theorem getElem?_programOf (fit : AllFit 0 chars) {index : Nat} {c : Char}
    (there : chars[index]? = some c) : (programOf chars).image[index]? = some (c.toNat : Int) := by
  obtain ⟨inside, _⟩ := List.getElem?_eq_some_iff.1 there
  have few := fit.length_le
  rw [programOf, getElem?_image (by simpa using inside) (by omega)]
  simp [there]

/-- Decoding at run time agrees with the check at loading time at every address. -/
theorem ofValue?_eq_decode {address : Nat} {c : Char} (fits : Fits address c) :
    Op.ofValue? (((c.toNat : Int) + address) % 94) = some (Op.decode c.toNat address) := by
  obtain ⟨op, stands⟩ := Option.isSome_iff_exists.1 (Op.ofValue?_isSome_iff.2 fits.legal)
  rw [Op.decode, stands]
  rfl

/-- The program of a text holds the instructions for which the text stands, and no others. -/
theorem decodes_programOf_iff (fit : AllFit 0 chars) {values : List Int} :
    Decodes (programOf chars) values ↔ values = disassemble 0 chars := by
  constructor
  · intro decodes
    have sameLength : values.length = (disassemble 0 chars).length :=
      decodes.loaded.symm.trans (length_disassemble 0 chars).symm
    refine List.ext_getElem sameLength fun index inside insideToo => ?_
    have there := List.getElem?_eq_getElem insideToo
    rw [getElem?_disassemble] at there
    obtain ⟨c, found, stands⟩ := Option.map_eq_some_iff.1 there
    obtain ⟨cell, stored, decoded⟩ := decodes.cells index _ (List.getElem?_eq_getElem inside)
    rw [getElem?_programOf fit found] at stored
    cases stored
    have fits := fit index c found
    rw [Nat.zero_add] at fits stands
    rw [← stands]
    exact Op.ofValue?_inj decoded (ofValue?_eq_decode fits)
  · rintro rfl
    refine ⟨(length_disassemble 0 chars).symm, fun index value there => ?_⟩
    rw [getElem?_disassemble] at there
    obtain ⟨c, found, rfl⟩ := Option.map_eq_some_iff.1 there
    have fits := fit index c found
    rw [Nat.zero_add] at fits ⊢
    exact ⟨_, getElem?_programOf fit found, ofValue?_eq_decode fits⟩

end Load

/-- Programs and lists of legal values correspond to each other. Each list that has room in memory has
one text without blanks, blanks in a text do not matter, no other texts are loaded, and every other text
is refused with the address of its first character that does not fit. -/
theorem loads_exactly_assembled (options : Options) (valid : options.Valid) :
    (∀ values : List Int, (∀ value ∈ values, value ∈ Op.legal) → values.length ≤ memorySize →
      ∃! text : String, (∀ c ∈ text.toList, Text.isBlank c = false) ∧
        ∃ program, Program.load options text = .ok program ∧ Decodes program values) ∧
    (∀ text source : String, Spaced text.toList source.toList →
      Program.load options source = Program.load options text) ∧
    (∀ source program, Program.load options source = .ok program →
      ∃ (values : List Int) (text : String), (∀ value ∈ values, value ∈ Op.legal) ∧
        values.length ≤ memorySize ∧ (∀ c ∈ text.toList, Text.isBlank c = false) ∧
        Spaced text.toList source.toList ∧ Program.load options text = .ok program ∧
        Decodes program values) ∧
    ∀ source error, Program.load options source = .error error →
      ∃ before c after, letters source = before ++ c :: after ∧ AllFit 0 before ∧
        ¬ Fits before.length c ∧ error.kind = .invalidInstruction ∧
        error.lookup "position" = some (toString before.length) := by
  refine ⟨fun values legal room => ?_, fun text source spaced => ?_, fun source program loaded => ?_,
    fun source error refused => ?_⟩
  · have fit : AllFit 0 (assemble 0 values) := allFit_assemble legal (by omega)
    have sameLetters := letters_ofList fit.not_blank
    refine ⟨String.ofList (assemble 0 values), ⟨?_, programOf (assemble 0 values), ?_, ?_⟩, ?_⟩
    · rw [String.toList_ofList]
      exact fit.not_blank
    · exact load_eq_ok_iff.2 ⟨valid, by rwa [sameLetters], by rw [sameLetters]⟩
    · exact (decodes_programOf_iff fit).2 (disassemble_assemble legal).symm
    · rintro text ⟨notBlank, program, loaded, decodes⟩
      obtain ⟨_, fitText, rfl⟩ := load_eq_ok_iff.1 loaded
      have same : letters text = text.toList := by
        rw [← letters_ofList notBlank, String.ofList_toList]
      rw [same] at fitText decodes
      rw [(decodes_programOf_iff fitText).1 decodes, assemble_disassemble fitText,
        String.ofList_toList]
  · exact load_eq_of_letters spaced.filter_eq
  · obtain ⟨_, fit, rfl⟩ := load_eq_ok_iff.1 loaded
    have sameLetters := letters_ofList fit.not_blank
    refine ⟨disassemble 0 (letters source), String.ofList (letters source),
      legal_of_mem_disassemble fit, ?_, ?_, ?_, ?_, (decodes_programOf_iff fit).2 rfl⟩
    · rw [length_disassemble]
      exact fit.length_le
    · rw [String.toList_ofList]
      exact fit.not_blank
    · rw [String.toList_ofList]
      exact spaced_filter source.toList
    · rw [load_eq_of_letters sameLetters, loaded]
  · obtain ⟨before, c, after, equal, fit, atFault⟩ := load_refuses valid refused
    refine ⟨before, c, after, equal, fit, fun fits => ?_, checkChar_refuses atFault⟩
    have passed : checkChar before.length c = .ok () := checkChar_eq_ok_iff.2 fits
    rw [passed] at atFault
    cases atFault

/-- The program that echoes one character, with blanks around and within it. -/
theorem loads_exactly_assembled_echo :
    Options.Valid {} ∧ (∀ value ∈ [23, 5, 81], value ∈ Op.legal) ∧ [23, 5, 81].length ≤ memorySize ∧
      (∃! text : String, (∀ c ∈ text.toList, Text.isBlank c = false) ∧
        ∃ program, Program.load {} text = .ok program ∧ Decodes program [23, 5, 81]) ∧
      Spaced "ubO".toList " u\nbO".toList ∧ Program.load {} " u\nbO" = Program.load {} "ubO" := by
  have valid : Options.Valid {} := by decide
  obtain ⟨assembles, ignoresBlanks, _, _⟩ := loads_exactly_assembled {} valid
  have spaced : Spaced "ubO".toList " u\nbO".toList :=
    .blank rfl (.keep _ (.blank rfl (.keep _ (.keep _ .nil))))
  exact ⟨valid, by decide, by decide, assembles _ (by decide) (by decide), spaced,
    ignoresBlanks _ _ spaced⟩

end Esoterica.Malbolge
