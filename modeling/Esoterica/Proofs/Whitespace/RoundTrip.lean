import Esoterica.Proofs.Whitespace.Grammar

/-!
Which texts are programs. A text loads exactly if its symbols spell instructions that hold an exit,
mark no label twice and mark every label they jump to; the program has these instructions.
-/

namespace Esoterica.Whitespace

/-- The symbols of a source. Every other character is a comment. -/
def symbols (source : String) : List Symbol :=
  source.toList.filterMap Symbol.ofChar?

/-- The spellings of instructions one after another. -/
inductive Spells : List Op → List Symbol → Prop where
  | nil : Spells [] []
  | cons {op : Op} {ops : List Op} {first rest : List Symbol} (spelled : op.Spelled first)
      (others : Spells ops rest) : Spells (op :: ops) (first ++ rest)

/-- The label that an instruction marks. -/
def Op.marked? : Op → Option Label
  | .mark label => some label
  | _ => none

/-- What makes instructions a program. -/
structure Loadable (ops : List Op) : Prop where
  fits : ∀ op ∈ ops, op.Fits
  exits : Op.exit ∈ ops
  marksOnce : (ops.filterMap Op.marked?).Nodup
  marksTargets : ∀ op ∈ ops, ∀ label, op.target? = some label → Op.mark label ∈ ops

/-- The label that an instruction at an index marks, if it marks one, with the index after it. -/
def Op.marksAt (index : Nat) (op : Op) : Labels :=
  (op.marked?.map fun label => (label, index + 1)).toList

/-- The labels that instructions mark, the first of them at an index. -/
def marksFrom (index : Nat) : List Op → Labels
  | [] => []
  | op :: ops => op.marksAt index ++ marksFrom (index + 1) ops

theorem map_fst_tokens (position : Nat) (chars : List Char) :
    (tokens position chars).map Prod.fst = chars.filterMap Symbol.ofChar? := by
  induction chars generalizing position with
  | nil => rfl
  | cons c chars inductionHypothesis =>
      cases symbol : Symbol.ofChar? c <;> simp [tokens, symbol, inductionHypothesis]

theorem mark_of_marked? {op : Op} {label : Label} (marked : op.marked? = some label) :
    op = .mark label := by
  cases op <;> simp_all [Op.marked?]

theorem map_fst_marksAt (index : Nat) (op : Op) :
    (op.marksAt index).map Prod.fst = op.marked?.toList := by
  cases mark : op.marked? <;> simp [Op.marksAt, mark]

theorem mem_marksAt_iff {index target : Nat} {op : Op} {label : Label} :
    (label, target) ∈ op.marksAt index ↔ op = .mark label ∧ target = index + 1 := by
  cases op with
  | mark other => simp [Op.marksAt, Op.marked?, @eq_comm _ other]
  | _ => simp [Op.marksAt, Op.marked?]

theorem map_fst_marksFrom (index : Nat) (ops : List Op) :
    (marksFrom index ops).map Prod.fst = ops.filterMap Op.marked? := by
  induction ops generalizing index with
  | nil => rfl
  | cons op ops inductionHypothesis =>
      rw [marksFrom, List.map_append, map_fst_marksAt, inductionHypothesis]
      cases marked : op.marked? <;> simp [marked]

theorem isSome_lookup_iff {labels : Labels} {label : Label} :
    (labels.lookup label).isSome ↔ label ∈ labels.map Prod.fst := by
  simp only [List.lookup_isSome_iff, List.mem_map, beq_iff_eq, @eq_comm _ label]

/-- Of labels that are all different, a lookup finds every one. -/
theorem lookup_eq_some_iff_mem {labels : Labels} {label : Label} {target : Nat}
    (once : (labels.map Prod.fst).Nodup) :
    labels.lookup label = some target ↔ (label, target) ∈ labels := by
  rw [List.lookup_eq_some_iff]
  constructor
  · rintro ⟨before, after, rfl, _⟩
    simp
  · intro member
    obtain ⟨before, after, rfl⟩ := List.append_of_mem member
    refine ⟨before, after, rfl, ?_⟩
    intro entry earlier
    simp only [List.map_append, List.map_cons, List.nodup_append, List.mem_cons] at once
    have different := once.2.2 entry.1 (List.mem_map_of_mem earlier) label (.inl rfl)
    simpa using different.symm

theorem mem_marksFrom_iff {index target : Nat} {ops : List Op} {label : Label} :
    (label, target) ∈ marksFrom index ops ↔
      ∃ offset, ops[offset]? = some (.mark label) ∧ target = index + offset + 1 := by
  induction ops generalizing index with
  | nil => simp [marksFrom]
  | cons op ops inductionHypothesis =>
      rw [marksFrom, List.mem_append, mem_marksAt_iff, inductionHypothesis]
      constructor
      · rintro (⟨marks, here⟩ | ⟨offset, marks, there⟩)
        · exact ⟨0, by simp [marks], here⟩
        · exact ⟨offset + 1, marks, by omega⟩
      · rintro ⟨_ | offset, marks, there⟩
        · exact .inl ⟨by simpa using marks, there⟩
        · exact .inr ⟨offset, marks, by omega⟩

theorem addMark_eq_ok_iff {start index : Nat} {labels result : Labels} {op : Op} :
    addMark start index labels op = .ok result ↔
      (∀ label, op.marked? = some label → label ∉ labels.map Prod.fst) ∧
        result = labels ++ op.marksAt index := by
  cases op with
  | mark label =>
      simp only [addMark, Op.marksAt, Op.marked?, isSome_lookup_iff]
      split <;> grind
  | _ => simp [addMark, Op.marksAt, Op.marked?, eq_comm]

section Reading

variable {index : Nat} {labels found : Labels} {tokens : List Token}
  {instructions : List (Op × Nat)}

theorem readOps_eq_nil_iff {trie : Trie} :
    readOps trie index labels tokens = .ok ⟨[], found⟩ ↔ tokens = [] ∧ found = labels := by
  rw [readOps.eq_def]
  grind

/-- One round of the reading takes an instruction off the tokens and adds the label that the
instruction marks. -/
theorem readOps_eq_cons_iff {trie : Trie} {op : Op} {start : Nat} :
    readOps trie index labels tokens = .ok ⟨(op, start) :: instructions, found⟩ ↔
      ∃ symbol rest after marked, tokens = (symbol, start) :: rest ∧
        readOp trie start tokens = .ok (op, after) ∧ addMark start index labels op = .ok marked ∧
        readOps trie (index + 1) marked after = .ok ⟨instructions, found⟩ := by
  rw [readOps.eq_def]
  grind [cases Listing]

theorem spells_of_readOps (read : readOps commands index labels tokens = .ok ⟨instructions, found⟩) :
    Spells (instructions.map Prod.fst) (tokens.map Prod.fst) ∧
      ∀ op ∈ instructions.map Prod.fst, op.Fits := by
  induction instructions generalizing index labels tokens with
  | nil =>
      obtain ⟨rfl, _⟩ := readOps_eq_nil_iff.1 read
      exact ⟨.nil, by simp⟩
  | cons instruction instructions inductionHypothesis =>
      obtain ⟨_, _, after, _, _, readOne, _, readRest⟩ := readOps_eq_cons_iff.1 read
      obtain ⟨⟨first, spelled, used, same, rfl⟩, fits⟩ := readOp_eq_ok_iff.1 readOne
      obtain ⟨spells, allFit⟩ := inductionHypothesis readRest
      rw [List.map_append, same]
      exact ⟨.cons spelled spells, List.forall_mem_cons.2 ⟨fits, allFit⟩⟩

theorem labels_of_readOps (read : readOps commands index labels tokens = .ok ⟨instructions, found⟩)
    (once : (labels.map Prod.fst).Nodup) :
    found = labels ++ marksFrom index (instructions.map Prod.fst) ∧
      (found.map Prod.fst).Nodup := by
  induction instructions generalizing index labels tokens with
  | nil =>
      obtain ⟨_, rfl⟩ := readOps_eq_nil_iff.1 read
      simp [marksFrom, once]
  | cons instruction instructions inductionHypothesis =>
      obtain ⟨op, start⟩ := instruction
      obtain ⟨_, _, after, _, _, _, added, readRest⟩ := readOps_eq_cons_iff.1 read
      obtain ⟨fresh, rfl⟩ := addMark_eq_ok_iff.1 added
      have stillOnce : ((labels ++ op.marksAt index).map Prod.fst).Nodup := by
        rw [List.map_append, map_fst_marksAt, List.nodup_append]
        refine ⟨once, by cases op.marked? <;> simp, ?_⟩
        rintro earlier inLabels label marked rfl
        exact fresh earlier (Option.mem_toList.1 marked) inLabels
      obtain ⟨equal, nodup⟩ := inductionHypothesis readRest stillOnce
      refine ⟨?_, nodup⟩
      rw [equal, List.append_assoc]
      rfl

/-- Spelled instructions that mark no label twice are read back. -/
theorem readOps_of_spells (index : Nat) (labels : Labels) {ops : List Op} {symbols : List Symbol}
    (spells : Spells ops symbols) (fits : ∀ op ∈ ops, op.Fits)
    (once : (labels.map Prod.fst ++ ops.filterMap Op.marked?).Nodup)
    (same : tokens.map Prod.fst = symbols) :
    ∃ listing, readOps commands index labels tokens = .ok listing ∧
      listing.instructions.map Prod.fst = ops := by
  induction spells generalizing index labels tokens with
  | nil =>
      refine ⟨⟨[], labels⟩, readOps_eq_nil_iff.2 ⟨?_, rfl⟩, rfl⟩
      simpa using same
  | @cons op ops first rest spelled others inductionHypothesis =>
      obtain ⟨used, after, rfl, usedSame, afterSame⟩ := List.map_eq_append_iff.1 same
      have readOne : ∀ start, readOp commands start (used ++ after) = .ok (op, after) := by
        intro start
        exact readOp_eq_ok_iff.2 ⟨⟨first, spelled, used, usedSame, rfl⟩, fits op (by simp)⟩
      have marks : (labels ++ op.marksAt index).map Prod.fst ++ ops.filterMap Op.marked? =
          labels.map Prod.fst ++ (op :: ops).filterMap Op.marked? := by
        rw [List.map_append, map_fst_marksAt]
        cases mark : op.marked? <;> simp [mark]
      have fresh : ∀ label, op.marked? = some label → label ∉ labels.map Prod.fst := by
        intro label mark earlier
        exact (List.nodup_append.1 once).2.2 label earlier label (by simp [mark]) rfl
      -- No spelling is empty: reading it would leave as many tokens as there were.
      cases used with
      | nil => simpa using readOp_shorter (readOne 0)
      | cons token used =>
          obtain ⟨symbol, start⟩ := token
          have othersFit : ∀ op ∈ ops, op.Fits := fun op member => fits op (by simp [member])
          obtain ⟨others, readRest, equal⟩ :=
            inductionHypothesis (index + 1) _ othersFit (marks ▸ once) afterSame
          refine ⟨⟨(op, start) :: others.instructions, others.labels⟩, ?_, by simp [equal]⟩
          exact readOps_eq_cons_iff.2 ⟨symbol, used ++ after, after, _, rfl, readOne start,
            addMark_eq_ok_iff.2 ⟨fresh, rfl⟩, readRest⟩

end Reading

theorem checkTargets_eq_ok_iff {labels : Labels} {instructions : List (Op × Nat)} :
    checkTargets labels instructions = .ok () ↔
      ∀ op ∈ instructions.map Prod.fst, ∀ label, op.target? = some label →
        label ∈ labels.map Prod.fst := by
  induction instructions with
  | nil => simp [checkTargets]
  | cons instruction instructions inductionHypothesis =>
      obtain ⟨op, position⟩ := instruction
      simp only [checkTargets, isSome_lookup_iff, List.map_cons, List.forall_mem_cons]
      rw [← inductionHypothesis]
      grind

theorem parse_eq_ok_iff {source : String} {program : Program} :
    Program.parse source = .ok program ↔
      ∃ listing, readOps commands 0 [] (tokens 0 source.toList) = .ok listing ∧
        Op.exit ∈ listing.instructions.map Prod.fst ∧
        checkTargets listing.labels listing.instructions = .ok () ∧
        program = ⟨(listing.instructions.map Prod.fst).toArray,
          (listing.instructions.map Prod.snd).toArray, listing.labels⟩ := by
  simp only [Program.parse, bind_eq_ok_iff]
  refine exists_congr fun listing => and_congr_right fun _ => ?_
  by_cases exits : Op.exit ∈ listing.instructions.map Prod.fst
  · simp only [List.contains_eq_mem, exits, decide_true, Bool.not_true, Bool.false_eq_true, if_false,
      true_and, bind_eq_ok_iff, pure, Except.pure, Except.ok.injEq, @eq_comm _ program]
    exact ⟨fun ⟨_, checked, equal⟩ => ⟨checked, equal⟩, fun ⟨checked, equal⟩ => ⟨(), checked, equal⟩⟩
  · simp [exits]

theorem load_eq_ok_iff {options : Options} {source : String} {program : Program} :
    Program.load options source = .ok program ↔
      options.Valid ∧ Program.parse source = .ok program := by
  simp [Program.load, bind_eq_ok_iff, Options.validate_eq_ok_iff]

theorem mark_mem_iff {ops : List Op} {label : Label} :
    Op.mark label ∈ ops ↔ label ∈ ops.filterMap Op.marked? := by
  rw [List.mem_filterMap]
  constructor
  · intro member
    exact ⟨_, member, rfl⟩
  · rintro ⟨op, member, marked⟩
    exact mark_of_marked? marked ▸ member

/-- What is read of a source is what makes a program of it. -/
theorem labels_of_parse {source : String} {program : Program}
    (parsed : Program.parse source = .ok program) :
    program.labels = marksFrom 0 program.ops.toList ∧ (program.labels.map Prod.fst).Nodup := by
  obtain ⟨listing, read, _, _, rfl⟩ := parse_eq_ok_iff.1 parsed
  simpa using labels_of_readOps read List.nodup_nil

/-- The label of a parsed program leads to the instruction after its mark. -/
theorem target?_eq_some_iff {source : String} {program : Program} {label : Label} {target : Nat}
    (parsed : Program.parse source = .ok program) :
    program.target? label = some target ↔
      ∃ index, program.ops.toList[index]? = some (.mark label) ∧ target = index + 1 := by
  obtain ⟨labels, once⟩ := labels_of_parse parsed
  rw [Program.target?, lookup_eq_some_iff_mem once, labels, mem_marksFrom_iff]
  simp

theorem loadable_of_parse {source : String} {program : Program}
    (parsed : Program.parse source = .ok program) :
    Spells program.ops.toList (symbols source) ∧ Loadable program.ops.toList := by
  obtain ⟨labels, once⟩ := labels_of_parse parsed
  obtain ⟨listing, read, exits, checked, rfl⟩ := parse_eq_ok_iff.1 parsed
  obtain ⟨spells, fits⟩ := spells_of_readOps read
  rw [map_fst_tokens] at spells
  have marked := map_fst_marksFrom 0 (listing.instructions.map Prod.fst)
  simp only at labels once ⊢
  rw [← labels] at marked
  refine ⟨spells, fits, exits, marked ▸ once, ?_⟩
  intro op member label targets
  rw [mark_mem_iff, ← marked]
  exact checkTargets_eq_ok_iff.1 checked op member label targets

/-- A text whose symbols spell a loadable program is parsed to it. -/
theorem parse_of_spells {source : String} {ops : List Op} (loadable : Loadable ops)
    (spells : Spells ops (symbols source)) :
    ∃ program, Program.parse source = .ok program ∧ program.ops.toList = ops := by
  obtain ⟨listing, read, rfl⟩ := readOps_of_spells 0 [] spells loadable.fits
    (by simpa using loadable.marksOnce) (map_fst_tokens 0 source.toList)
  obtain ⟨labels, _⟩ := labels_of_readOps read List.nodup_nil
  have checked : checkTargets listing.labels listing.instructions = .ok () := by
    rw [checkTargets_eq_ok_iff]
    intro op member label targets
    rw [labels, List.nil_append, map_fst_marksFrom, ← mark_mem_iff]
    exact loadable.marksTargets op member label targets
  exact ⟨_, parse_eq_ok_iff.2 ⟨listing, read, loadable.exits, checked, rfl⟩, rfl⟩

/-- The tokens that are left after some rounds of the reading, if there are so many. -/
def leftAfter : Nat → List Token → Option (List Token)
  | 0, tokens => some tokens
  | _ + 1, [] => none
  | rounds + 1, (symbol, start) :: rest =>
    match readOp commands start ((symbol, start) :: rest) with
    | .error _ => none
    | .ok (_, after) => leftAfter rounds after

/-- The reading goes on with an end of its tokens, which gets shorter with every round. -/
theorem suffix_of_leftAfter {rounds : Nat} {tokens left : List Token}
    (reached : leftAfter rounds tokens = some left) :
    left <:+ tokens ∧ rounds + left.length ≤ tokens.length := by
  fun_induction leftAfter rounds tokens with
  | case1 tokens => simp_all
  | case2 => simp at reached
  | case3 => simp at reached
  | case4 rounds symbol start rest op after read inductionHypothesis =>
      obtain ⟨suffix, within⟩ := inductionHypothesis reached
      obtain ⟨⟨_, _, used, _, equal⟩, _⟩ := readOp_eq_ok_iff.1 read
      have shorter := readOp_shorter read
      exact ⟨suffix.trans ⟨used, equal.symm⟩, by omega⟩

theorem leftAfter_of_readOps {index : Nat} {labels found : Labels} {tokens : List Token}
    {instructions : List (Op × Nat)}
    (read : readOps commands index labels tokens = .ok ⟨instructions, found⟩) :
    leftAfter instructions.length tokens = some [] := by
  induction instructions generalizing index labels tokens with
  | nil =>
      obtain ⟨rfl, _⟩ := readOps_eq_nil_iff.1 read
      rfl
  | cons instruction instructions inductionHypothesis =>
      obtain ⟨_, _, after, _, rfl, readOne, _, readRest⟩ := readOps_eq_cons_iff.1 read
      simpa [leftAfter, readOne] using inductionHypothesis readRest

/-- Loading undoes spelling. Every text that spells a loadable program, with whatever comments, is
loaded to just this program, in which a label leads behind its mark; and every text that is loaded
spells its program, which is loadable. The reading never passes the end of the symbols, and it stops,
on every text. -/
theorem loads_exactly_spellings (options : Options) (valid : options.Valid) :
    (∀ (ops : List Op) (source : String), Loadable ops → Spells ops (symbols source) →
      ∃ program, Program.load options source = .ok program ∧ program.ops.toList = ops ∧
        ∀ label target, program.target? label = some target ↔
          ∃ index, ops[index]? = some (.mark label) ∧ target = index + 1) ∧
    (∀ (source : String) (program : Program), Program.load options source = .ok program →
      Spells program.ops.toList (symbols source) ∧ Loadable program.ops.toList ∧
        leftAfter program.ops.size (tokens 0 source.toList) = some []) ∧
    (∀ (source : String), let all := tokens 0 source.toList
      (∀ rounds left, leftAfter rounds all = some left →
        left <:+ all ∧ rounds + left.length ≤ all.length) ∧
      leftAfter (all.length + 1) all = none) := by
  refine ⟨?_, ?_, ?_⟩
  · intro ops source loadable spells
    obtain ⟨program, parsed, rfl⟩ := parse_of_spells loadable spells
    exact ⟨program, load_eq_ok_iff.2 ⟨valid, parsed⟩, rfl, fun _ _ => target?_eq_some_iff parsed⟩
  · intro source program loaded
    have parsed := (load_eq_ok_iff.1 loaded).2
    obtain ⟨spells, loadable⟩ := loadable_of_parse parsed
    obtain ⟨listing, read, _, _, rfl⟩ := parse_eq_ok_iff.1 parsed
    exact ⟨spells, loadable, by simpa using leftAfter_of_readOps read⟩
  · intro source all
    refine ⟨fun _ _ => suffix_of_leftAfter, ?_⟩
    cases reached : leftAfter (all.length + 1) all with
    | none => rfl
    | some left =>
        have within := (suffix_of_leftAfter reached).2
        omega

/-- An endless loop, where the number has a leading zero and words stand between the symbols. -/
theorem loads_commented_loop :
    let ops : List Op := [.mark ⟨[true]⟩, .push (-2), .jump ⟨[true]⟩, .exit]
    let source := "loop\n  \t\npush  \t \ttwo \nback\n \n\t\n\n\n\nend"
    ({} : Options).Valid ∧ Loadable ops ∧ Spells ops (symbols source) ∧
      ∃ program, Program.load {} source = .ok program ∧ program.ops.toList = ops ∧
        program.target? ⟨[true]⟩ = some 1 := by
  intro ops source
  have valid : ({} : Options).Valid := by decide
  have loadable : Loadable ops := by
    refine ⟨?_, by decide, by decide, ?_⟩
    · simp [ops, Op.Fits, Op.argument]
    · simp [ops, Op.target?]
  have spells : Spells ops (symbols source) := by
    have mark : (Op.mark ⟨[true]⟩).Spelled [.linefeed, .space, .space, .tab, .linefeed] :=
      ⟨_, .label, rfl⟩
    have push : (Op.push (-2)).Spelled [.space, .space, .tab, .space, .tab, .space, .linefeed] :=
      ⟨_, @Argument.Spelled.number true [false, true, false] _ (by decide), rfl⟩
    have jump : (Op.jump ⟨[true]⟩).Spelled [.linefeed, .space, .linefeed, .tab, .linefeed] :=
      ⟨_, .label, rfl⟩
    have exit : Op.exit.Spelled [.linefeed, .linefeed, .linefeed] := ⟨_, .none, rfl⟩
    have all := Spells.cons mark (.cons push (.cons jump (.cons exit .nil)))
    refine Eq.subst (motive := Spells ops) ?_ all
    decide +kernel
  obtain ⟨program, loaded, equal, targets⟩ :=
    (loads_exactly_spellings {} valid).1 ops source loadable spells
  exact ⟨valid, loadable, spells, program, loaded, equal, (targets ⟨[true]⟩ 1).2 ⟨0, rfl, rfl⟩⟩

end Esoterica.Whitespace
