import Esoterica.Proofs.Brainfuck.Code
import Mathlib.Data.Set.Function
import Mathlib.Order.Bounds.Basic

/-!
Which texts have matching brackets. A text loads exactly if its brackets are a word of the grammar of
balanced brackets; then the two ends of every loop lead to each other, and otherwise the error names the
position of one bracket without partner.
-/

namespace Esoterica.Brainfuck

/-- Brackets that match: none, or a pair with matching brackets inside it and behind it. -/
inductive Balanced : List Op → Prop where
  | nil : Balanced []
  | pair {inside behind : List Op} (balancedInside : Balanced inside)
      (balancedBehind : Balanced behind) :
      Balanced (.loopOpen :: (inside ++ .loopClose :: behind))

def Op.isBracket : Op → Bool
  | loopOpen | loopClose => true
  | _ => false

/-- The brackets among instructions. -/
def brackets (ops : List Op) : List Op :=
  ops.filter Op.isBracket

/-- The brackets among instructions match. -/
def Matched (ops : List Op) : Prop :=
  Balanced (brackets ops)

/-- The instructions of a text, in which every other character is a comment. -/
def instructionsOf (chars : List Char) : List Op :=
  chars.filterMap Op.ofChar?

/-- At this position a text has a closing bracket that closes more brackets than are opened before
it. -/
def Stray (chars : List Char) (position : Nat) : Prop :=
  ∃ before behind, chars = before ++ ']' :: behind ∧ before.length = position ∧
    before.count '[' < before.count ']' + 1

/-- At this position a text has an opening bracket that is never closed: up to no closing bracket
behind it the brackets match. -/
def Unclosed (chars : List Char) (position : Nat) : Prop :=
  ∃ before behind, chars = before ++ '[' :: behind ∧ before.length = position ∧
    ∀ inside rest, behind = inside ++ ']' :: rest → ¬ Matched (instructionsOf inside)

namespace Balanced

variable {word other before behind : List Op}

theorem append (balanced : Balanced word) (further : Balanced other) : Balanced (word ++ other) := by
  induction balanced with
  | nil => exact further
  | pair balancedInside _ _ inductionHypothesis =>
      simpa using Balanced.pair balancedInside inductionHypothesis

theorem count_eq (balanced : Balanced word) : word.count .loopClose = word.count .loopOpen := by
  induction balanced with
  | nil => rfl
  | pair _ _ insideEqual behindEqual =>
      simp only [List.count_cons, List.count_append, insideEqual, behindEqual]
      simp only [beq_self_eq_true, beq_iff_eq, reduceCtorEq, if_true, if_false]
      omega

/-- Up to no place are more brackets closed than opened. -/
theorem count_le (balanced : Balanced word) (split : word = before ++ behind) :
    before.count .loopClose ≤ before.count .loopOpen := by
  induction balanced generalizing before behind with
  | nil =>
      obtain ⟨rfl, _⟩ := List.append_eq_nil_iff.1 split.symm
      simp
  | @pair inside rest balancedInside _ insideLe restLe =>
      cases before with
      | nil => simp
      | cons op before =>
          obtain ⟨rfl, tails⟩ := List.cons_eq_cons.1 split
          have insideEqual := balancedInside.count_eq
          obtain ⟨middle, rfl, ends⟩ | ⟨middle, rfl, _⟩ := List.append_eq_append_iff.1 tails
          · cases middle with
            | nil => simp [insideEqual]
            | cons op middle =>
                obtain ⟨rfl, rests⟩ := List.cons_eq_cons.1 ends
                have := restLe rests
                simp only [List.count_append, List.count_cons_self, List.count_cons_of_ne,
                  ne_eq, reduceCtorEq, not_false_eq_true]
                omega
          · have := insideLe rfl
            simp only [List.count_cons_self, List.count_cons_of_ne,
              ne_eq, reduceCtorEq, not_false_eq_true]
            omega

/-- Every opening bracket has a closing one, with matching brackets between them. -/
theorem exists_closing (balanced : Balanced word) (split : word = before ++ .loopOpen :: behind) :
    ∃ inside rest, behind = inside ++ .loopClose :: rest ∧ Balanced inside := by
  induction balanced generalizing before behind with
  | nil => simp at split
  | @pair inside rest balancedInside _ closedInside closedBehind =>
      cases before with
      | nil =>
          obtain ⟨_, rfl⟩ := List.cons_eq_cons.1 split
          exact ⟨inside, rest, rfl, balancedInside⟩
      | cons op before =>
          have tails := (List.cons_eq_cons.1 split).2
          obtain ⟨middle, rfl, ends⟩ | ⟨middle, rfl, ends⟩ := List.append_eq_append_iff.1 tails
          · cases middle with
            | nil => simp at ends
            | cons op middle => exact closedBehind (List.cons_eq_cons.1 ends).2
          · cases middle with
            | nil => simp at ends
            | cons op middle =>
                obtain ⟨rfl, rfl⟩ := List.cons_eq_cons.1 ends
                obtain ⟨body, more, rfl, balanced⟩ := closedInside rfl
                exact ⟨body, more ++ .loopClose :: rest, by simp, balanced⟩

end Balanced

@[simp] theorem brackets_append (ops other : List Op) :
    brackets (ops ++ other) = brackets ops ++ brackets other :=
  List.filter_append ops other

@[simp] theorem brackets_open (ops : List Op) :
    brackets (.loopOpen :: ops) = .loopOpen :: brackets ops := rfl

@[simp] theorem brackets_close (ops : List Op) :
    brackets (.loopClose :: ops) = .loopClose :: brackets ops := rfl

theorem count_brackets {op : Op} (isBracket : op.isBracket) (ops : List Op) :
    (brackets ops).count op = ops.count op :=
  List.count_filter isBracket

namespace Matched

variable {ops other before behind : List Op}

theorem nil : Matched [] :=
  Balanced.nil

theorem basic (basic : Basic) : Matched [basic.op] := by
  cases basic <;> exact Balanced.nil

theorem append (matched : Matched ops) (further : Matched other) : Matched (ops ++ other) := by
  rw [Matched, brackets_append]
  exact Balanced.append matched further

theorem pair (matched : Matched ops) : Matched (.loopOpen :: (ops ++ [.loopClose])) := by
  rw [Matched, brackets_open, brackets_append]
  exact Balanced.pair matched .nil

theorem count_eq (matched : Matched ops) : ops.count .loopClose = ops.count .loopOpen := by
  have equal := Balanced.count_eq matched
  rwa [count_brackets rfl, count_brackets rfl] at equal

theorem count_le (matched : Matched ops) (split : ops = before ++ behind) :
    before.count .loopClose ≤ before.count .loopOpen := by
  have le : (brackets before).count .loopClose ≤ (brackets before).count .loopOpen :=
    Balanced.count_le matched (by rw [split, brackets_append])
  rwa [count_brackets rfl, count_brackets rfl] at le

theorem exists_closing (matched : Matched ops) (split : ops = before ++ .loopOpen :: behind) :
    ∃ inside rest, behind = inside ++ .loopClose :: rest ∧ Matched inside := by
  have bracketSplit : brackets ops = brackets before ++ .loopOpen :: brackets behind := by simp [split]
  obtain ⟨inside, rest, equal, balanced⟩ := Balanced.exists_closing matched bracketSplit
  obtain ⟨first, second, rfl, rfl, closes⟩ := List.filter_eq_append_iff.1 equal
  obtain ⟨plain, later, rfl, none, _, _⟩ := List.filter_eq_cons_iff.1 closes
  refine ⟨first ++ plain, later, by simp, ?_⟩
  rwa [Matched, brackets_append, brackets, brackets, List.filter_eq_nil_iff.2 none, List.append_nil]

end Matched

/-- Some instructions have been read, and these loops of them are open, the innermost first. -/
inductive Opens : List Op → List Nat → Prop where
  | none {before : List Op} (matched : Matched before) : Opens before []
  | loop {before inside : List Op} {opened : List Nat} (around : Opens before opened)
      (matched : Matched inside) : Opens (before ++ .loopOpen :: inside) (before.length :: opened)

namespace Opens

variable {before inside : List Op} {opened : List Nat}

theorem append (opens : Opens before opened) (matched : Matched inside) :
    Opens (before ++ inside) opened := by
  cases opens with
  | none before => exact .none (before.append matched)
  | loop around earlier =>
      rw [List.append_assoc, List.cons_append]
      exact .loop around (earlier.append matched)

theorem split {ops : List Op} {index : Nat} (opens : Opens ops (index :: opened)) :
    ∃ before inside, ops = before ++ .loopOpen :: inside ∧ before.length = index ∧
      Opens before opened ∧ Matched inside := by
  cases opens with
  | loop around matched => exact ⟨_, _, rfl, rfl, around, matched⟩

/-- A closing bracket closes the innermost loop. -/
theorem close {partner : Nat} (opens : Opens before (partner :: opened)) :
    Opens (before ++ [.loopClose]) opened := by
  obtain ⟨before, inside, rfl, _, around, matched⟩ := opens.split
  rw [List.append_assoc, List.cons_append]
  exact around.append matched.pair

/-- Up to no place are more brackets closed than opened. -/
theorem count_le {first behind : List Op} (opens : Opens before opened)
    (split : before = first ++ behind) : first.count .loopClose ≤ first.count .loopOpen := by
  induction opens generalizing first behind with
  | none matched => exact matched.count_le split
  | @loop before inside opened around matched inductionHypothesis =>
      obtain ⟨middle, rfl, equal⟩ | ⟨middle, rfl, _⟩ := List.append_eq_append_iff.1 split
      · have outer := inductionHypothesis (List.append_nil before).symm
        cases middle with
        | nil => simpa using outer
        | cons op middle =>
            obtain ⟨rfl, rfl⟩ := List.cons_eq_cons.1 equal
            have inner := matched.count_le rfl
            simp only [List.count_append, List.count_cons_self, List.count_cons_of_ne,
              ne_eq, reduceCtorEq, not_false_eq_true]
            omega
      · exact inductionHypothesis rfl

end Opens

/-- What the matching of brackets says about instructions: all loops are closed, or the bracket at an
index closes none, or the loop at an index is open in the end and no loop is open inside it. -/
def Judges (ops : List Op) : Except Nat (List (Nat × Nat)) → Prop
  | .ok _ => Matched ops
  | .error index =>
    (∃ before behind, ops = before ++ .loopClose :: behind ∧ before.length = index ∧ Matched before) ∨
      ∃ around, Opens ops (index :: around)

theorem judges_map_iff {ops : List Op} {verdict : Except Nat (List (Nat × Nat))}
    (change : List (Nat × Nat) → List (Nat × Nat)) :
    Judges ops (verdict.map change) ↔ Judges ops verdict := by
  cases verdict <;> rfl

theorem matchLoops_judges {before rest : List Op} {opened : List Nat} (opens : Opens before opened) :
    Judges (before ++ rest) (matchLoops before.length opened rest) := by
  induction rest generalizing before opened with
  | nil =>
      rw [List.append_nil]
      cases opens with
      | none matched => exact matched
      | loop around matched => exact .inr ⟨_, .loop around matched⟩
  | cons op rest inductionHypothesis =>
      have text : before ++ op :: rest = before ++ [op] ++ rest := by simp
      have index : before.length + 1 = (before ++ [op]).length := by simp
      rw [text]
      obtain rfl | rfl | ⟨basic, rfl⟩ := op.bracket_or_basic
      · rw [matchLoops, index]
        exact inductionHypothesis (opens.loop .nil)
      · cases opened with
        | nil =>
            cases opens with
            | none matched => exact .inl ⟨before, rest, text.symm, rfl, matched⟩
        | cons partner opened =>
            rw [matchLoops, judges_map_iff, index]
            exact inductionHypothesis opens.close
      · rw [matchLoops_basic, index]
        exact inductionHypothesis (opens.append (.basic basic))

/-- The brackets match exactly if the matching says so. -/
theorem exists_matchLoops_eq_ok_iff {ops : List Op} :
    (∃ loops, matchLoops 0 [] ops = .ok loops) ↔ Matched ops := by
  have judges : Judges ops (matchLoops 0 [] ops) := matchLoops_judges (.none .nil)
  constructor
  · rintro ⟨loops, matched⟩
    rwa [matched] at judges
  · intro matched
    cases verdict : matchLoops 0 [] ops with
    | ok loops => exact ⟨loops, rfl⟩
    | error index =>
        rw [verdict] at judges
        obtain ⟨before, behind, rfl, _, matchedBefore⟩ | ⟨around, opens⟩ := judges
        · have equal := matchedBefore.count_eq
          have le := matched.count_le (List.append_cons before _ behind)
          simp only [List.count_append, List.count_cons_self, List.count_cons_of_ne, List.count_nil,
            ne_eq, reduceCtorEq, not_false_eq_true] at le
          omega
        · obtain ⟨before, inside, rfl, _, outer, matchedInside⟩ := opens.split
          have le := outer.count_le (List.append_nil before).symm
          have equal := matchedInside.count_eq
          have total := matched.count_eq
          simp only [List.count_append, List.count_cons_self, List.count_cons_of_ne,
            ne_eq, reduceCtorEq, not_false_eq_true] at total
          omega

section Text

variable {chars before behind : List Char}

theorem instructionsOf_append (before behind : List Char) :
    instructionsOf (before ++ behind) = instructionsOf before ++ instructionsOf behind :=
  List.filterMap_append

theorem Op.ofChar?_eq_open_iff {c : Char} : ofChar? c = some .loopOpen ↔ c = '[' := by
  unfold ofChar?
  split <;> simp_all

theorem Op.ofChar?_eq_close_iff {c : Char} : ofChar? c = some .loopClose ↔ c = ']' := by
  unfold ofChar?
  split <;> simp_all

theorem count_instructionsOf {op : Op} {sign : Char}
    (spelled : ∀ {c}, Op.ofChar? c = some op ↔ c = sign) (chars : List Char) :
    (instructionsOf chars).count op = chars.count sign := by
  rw [instructionsOf, List.count_filterMap, List.count]
  congr
  funext c
  rw [Bool.eq_iff_iff, beq_iff_eq, beq_iff_eq, spelled]

theorem count_open (chars : List Char) : (instructionsOf chars).count .loopOpen = chars.count '[' :=
  count_instructionsOf Op.ofChar?_eq_open_iff chars

theorem count_close (chars : List Char) : (instructionsOf chars).count .loopClose = chars.count ']' :=
  count_instructionsOf Op.ofChar?_eq_close_iff chars

/-- Where instructions split at one of them, the text splits at its character. -/
theorem exists_split_of_instructionsOf {op : Op} {opsBefore opsBehind : List Op}
    (split : instructionsOf chars = opsBefore ++ op :: opsBehind) :
    ∃ before c behind, chars = before ++ c :: behind ∧ Op.ofChar? c = some op ∧
      instructionsOf before = opsBefore ∧ instructionsOf behind = opsBehind := by
  obtain ⟨first, second, rfl, rfl, splitSecond⟩ := List.filterMap_eq_append_iff.1 split
  obtain ⟨comments, c, behind, rfl, none, char, rfl⟩ := List.filterMap_eq_cons_iff.1 splitSecond
  refine ⟨first ++ comments, c, behind, by simp, char, ?_, rfl⟩
  have nothing : instructionsOf comments = [] := List.filterMap_eq_nil_iff.2 none
  rw [instructionsOf_append, nothing, List.append_nil, instructionsOf]

/-- Where up to no place more brackets are closed than opened, none is stray. -/
theorem not_stray_of_count_le
    (le : ∀ first rest, chars = first ++ rest → first.count ']' ≤ first.count '[') (position : Nat) :
    ¬ Stray chars position := by
  rintro ⟨before, behind, rfl, _, more⟩
  have := le (before ++ [']']) behind (by simp)
  simp only [List.count_append, List.count_cons_self, List.count_cons_of_ne, List.count_nil,
    ne_eq, Char.reduceEq, not_false_eq_true] at this
  omega

theorem count_le_of_opens {opened : List Nat} (opens : Opens (instructionsOf chars) opened)
    {first rest : List Char} (split : chars = first ++ rest) : first.count ']' ≤ first.count '[' := by
  have le := opens.count_le (split ▸ instructionsOf_append first rest)
  rwa [count_close, count_open] at le

/-- Behind matching brackets, a closing bracket is the first that is stray. -/
theorem isLeast_stray (matched : Matched (instructionsOf before)) (behind : List Char) :
    IsLeast {position | Stray (before ++ ']' :: behind) position} before.length := by
  constructor
  · have equal := matched.count_eq
    rw [count_close, count_open] at equal
    exact ⟨before, behind, rfl, rfl, by omega⟩
  · rintro position ⟨first, rest, split, rfl, more⟩
    by_contra! shorter
    obtain ⟨middle, rfl, _⟩ | ⟨middle, rfl, ends⟩ := List.append_eq_append_iff.1 split
    · simp only [List.length_append] at shorter
      omega
    · cases middle with
      | nil => simp at shorter
      | cons c middle =>
          obtain ⟨rfl, _⟩ := List.cons_eq_cons.1 ends
          exact not_stray_of_count_le (fun _ _ => count_le_of_opens (.none matched)) first.length
            ⟨first, middle, rfl, rfl, more⟩

/-- Before matching brackets, an opening bracket is the last that is never closed. -/
theorem isGreatest_unclosed (before : List Char) (matched : Matched (instructionsOf behind)) :
    IsGreatest {position | Unclosed (before ++ '[' :: behind) position} before.length := by
  constructor
  · refine ⟨before, behind, rfl, rfl, ?_⟩
    rintro inside rest rfl matchedInside
    have le := count_le_of_opens (.none matched) (List.append_cons inside ']' rest)
    have equal := matchedInside.count_eq
    rw [count_close, count_open] at equal
    simp only [List.count_append, List.count_cons_self, List.count_cons_of_ne, List.count_nil,
      ne_eq, Char.reduceEq, not_false_eq_true] at le
    omega
  · rintro position ⟨first, rest, split, rfl, unclosed⟩
    by_contra! longer
    obtain ⟨middle, rfl, ends⟩ | ⟨middle, rfl, _⟩ := List.append_eq_append_iff.1 split
    · cases middle with
      | nil => simp at longer
      | cons c middle =>
          have split : instructionsOf behind =
              instructionsOf middle ++ .loopOpen :: instructionsOf rest := by
            rw [(List.cons_eq_cons.1 ends).2]
            exact instructionsOf_append middle ('[' :: rest)
          obtain ⟨opsInside, opsRest, closing, matchedInside⟩ := matched.exists_closing split
          obtain ⟨inside, c, later, rfl, char, rfl, _⟩ := exists_split_of_instructionsOf closing
          obtain rfl := Op.ofChar?_eq_close_iff.1 char
          exact unclosed inside later rfl matchedInside
    · simp only [List.length_append] at longer
      omega

end Text

section Position

/-- The instructions of a text with their positions, the first character having a position. -/
def located (position : Nat) (chars : List Char) : List (Op × Nat) :=
  (chars.zipIdx position).filterMap fun (c, place) => (Op.ofChar? c).map (·, place)

theorem located_append (position : Nat) (before behind : List Char) :
    located position (before ++ behind) =
      located position before ++ located (position + before.length) behind := by
  rw [located, List.zipIdx_append, List.filterMap_append, located, located]

theorem map_fst_located (position : Nat) (chars : List Char) :
    (located position chars).map Prod.fst = instructionsOf chars := by
  induction chars generalizing position with
  | nil => rfl
  | cons c chars inductionHypothesis =>
      have rest := inductionHypothesis (position + 1)
      unfold located instructionsOf at rest ⊢
      cases char : Op.ofChar? c <;> simp [char, rest]

/-- With comments allowed every text has its instructions. -/
theorem scan_lax (position : Nat) (chars : List Char) :
    scan false position chars = .ok (located position chars) := by
  induction chars generalizing position with
  | nil => rfl
  | cons c chars inductionHypothesis =>
      rw [scan, inductionHypothesis]
      unfold located
      cases char : Op.ofChar? c <;> simp [char, Except.map]

theorem getElem?_located {before behind : List Char} {c : Char} {op : Op}
    (char : Op.ofChar? c = some op) :
    (located 0 (before ++ c :: behind))[(instructionsOf before).length]? =
      some (op, before.length) := by
  have length : (instructionsOf before).length = (located 0 before).length := by
    rw [← map_fst_located 0, List.length_map]
  rw [located_append, length, List.getElem?_append_right (Nat.le_refl _)]
  simp [located, char]

end Position

namespace Code

theorem matched (code : Code) : Matched code.ops := by
  induction code with
  | done => exact .nil
  | act basic next nextMatched => exact (Matched.basic basic).append nextMatched
  | loop body next bodyMatched nextMatched =>
      have both := bodyMatched.pair.append nextMatched
      simpa [ops] using both

/-- The ends of a loop are brackets, and those between them match. -/
theorem exists_split_of_mem_loops {code : Code} {index opening closing : Nat}
    (member : (opening, closing) ∈ code.loops index) :
    ∃ before body behind, code.ops = before ++ .loopOpen :: (body ++ .loopClose :: behind) ∧
      opening = index + before.length ∧ closing = opening + body.length + 1 ∧ Matched body := by
  induction code generalizing index with
  | done => simp [loops] at member
  | act basic next nextSplit =>
      obtain ⟨before, body, behind, split, rfl, rfl, matched⟩ := nextSplit member
      refine ⟨basic.op :: before, body, behind, by simp [ops, split], ?_, rfl, matched⟩
      simp only [List.length_cons]
      omega
  | loop body next bodySplit nextSplit =>
      rw [loops, List.mem_append, List.mem_cons] at member
      obtain inBody | here | inNext := member
      · obtain ⟨before, inside, behind, split, rfl, rfl, matched⟩ := bodySplit inBody
        refine ⟨.loopOpen :: before, inside, behind ++ .loopClose :: next.ops,
          by simp [ops, split], ?_, rfl, matched⟩
        simp only [List.length_cons]
        omega
      · obtain ⟨rfl, rfl⟩ := Prod.mk.inj here
        exact ⟨[], body.ops, next.ops, rfl, rfl, by rw [body.length_ops], body.matched⟩
      · obtain ⟨before, inside, behind, split, rfl, rfl, matched⟩ := nextSplit inNext
        refine ⟨.loopOpen :: (body.ops ++ .loopClose :: before), inside, behind,
          by simp [ops, split], ?_, rfl, matched⟩
        simp only [List.length_cons, List.length_append, body.length_ops]
        omega

/-- Every bracket is an end of a loop. -/
theorem mem_ends_of_isBracket {code : Code} {offset : Nat} {op : Op}
    (here : code.ops[offset]? = some op) (isBracket : op.isBracket) (index : Nat) :
    index + offset ∈ ends (code.loops index) := by
  induction code generalizing offset index with
  | done => simp [ops] at here
  | act basic next nextEnds =>
      cases offset with
      | zero =>
          obtain rfl : basic.op = op := by simpa [ops] using here
          cases basic <;> cases isBracket
      | succ offset =>
          have := nextEnds here (index + 1)
          rwa [Nat.add_assoc, Nat.add_comm 1] at this
  | loop body next bodyEnds nextEnds =>
      rw [loops, ends_append, ends_cons, List.mem_append, List.mem_cons, List.mem_cons]
      cases offset with
      | zero => simp
      | succ offset =>
          rw [ops, List.getElem?_cons_succ, List.getElem?_append, body.length_ops] at here
          split at here
          · have := bodyEnds here (index + 1)
            rw [Nat.add_assoc, Nat.add_comm 1] at this
            exact .inl this
          · obtain ⟨further, rfl⟩ : ∃ further, offset = body.size + further :=
              ⟨offset - body.size, by omega⟩
            rw [Nat.add_sub_cancel_left] at here
            cases further with
            | zero => simp [Nat.add_assoc]
            | succ further =>
                have := nextEnds here (index + body.size + 2)
                have equal : index + (body.size + (further + 1) + 1) =
                    index + body.size + 2 + further := by omega
                rw [equal]
                exact .inr (.inr (.inr this))

end Code

namespace Program

/-- With comments allowed only the brackets of a text are checked. -/
theorem load_lax {options : Options} (valid : options.Valid) (lax : options.strict = false)
    (source : String) :
    load options source =
      match matchLoops 0 [] (instructionsOf source.toList) with
      | .error index => .error (unmatched (located 0 source.toList) index)
      | .ok loops =>
        .ok {
          ops := (instructionsOf source.toList).toArray
          positions := ((located 0 source.toList).map Prod.snd).toArray
          loops
          partners := partnerTable (instructionsOf source.toList).length loops } := by
  have passed : options.validate = .ok () := Options.validate_eq_ok_iff.2 valid
  rw [load, passed, lax]
  change parse false source = _
  rw [parse, scan_lax]
  change (match matchLoops 0 [] ((located 0 source.toList).map Prod.fst) with
    | .error index => _
    | .ok loops => _) = _
  rw [map_fst_located]
  rfl

def openings (program : Program) : Set Nat :=
  {index | program.ops[index]? = some .loopOpen}

def closings (program : Program) : Set Nat :=
  {index | program.ops[index]? = some .loopClose}

/-- Every bracket has its partner. -/
structure Paired (program : Program) : Prop where
  bijective : Set.BijOn program.partner program.openings program.closings
  inverse : Set.InvOn program.partner program.partner program.openings program.closings
  /-- The loops are the openings with their partners. -/
  listed : ∀ opening closing, (opening, closing) ∈ program.loops ↔
    opening ∈ program.openings ∧ program.partner opening = closing
  /-- A loop opens before it closes, and between its ends the brackets match. -/
  nested : ∀ opening ∈ program.openings, ∃ before body behind,
    program.ops.toList = before ++ .loopOpen :: (body ++ .loopClose :: behind) ∧
      opening = before.length ∧ program.partner opening = opening + body.length + 1 ∧ Matched body

section Loaded

variable {options : Options} {source : String} {program : Program} {opening closing : Nat}

theorem split_of_mem_loops (loaded : load options source = .ok program)
    (member : (opening, closing) ∈ program.loops) :
    ∃ before body behind,
      program.ops.toList = before ++ .loopOpen :: (body ++ .loopClose :: behind) ∧
        opening = before.length ∧ closing = opening + body.length + 1 ∧ Matched body := by
  obtain ⟨code, whole, loopsEq, _⟩ := blocks_of_load loaded
  rw [loopsEq] at member
  simpa [Code.ops_of_parse whole] using Code.exists_split_of_mem_loops member

theorem brackets_of_mem_loops (loaded : load options source = .ok program)
    (member : (opening, closing) ∈ program.loops) :
    opening ∈ program.openings ∧ closing ∈ program.closings := by
  obtain ⟨before, body, behind, split, rfl, rfl, _⟩ := split_of_mem_loops loaded member
  have toClosing : before.length + body.length + 1 = (before ++ Op.loopOpen :: body).length := by
    simp [Nat.add_assoc]
  constructor
  · change program.ops[before.length]? = some .loopOpen
    simp [← Array.getElem?_toList, split]
  · change program.ops[before.length + body.length + 1]? = some .loopClose
    rw [← Array.getElem?_toList, split, toClosing, ← List.cons_append, ← List.append_assoc]
    simp

/-- With its partner every bracket is a loop. -/
theorem mem_loops_of_bracket (loaded : load options source = .ok program) :
    (∀ opening ∈ program.openings, (opening, program.partner opening) ∈ program.loops) ∧
      ∀ closing ∈ program.closings, (program.partner closing, closing) ∈ program.loops := by
  obtain ⟨code, whole, loopsEq, partners⟩ := blocks_of_load loaded
  have looped {index : Nat} {op : Op} (here : program.ops[index]? = some op)
      (isBracket : op.isBracket) :
      ∃ first last, (first, last) ∈ program.loops ∧ (index = first ∨ index = last) := by
    rw [← Array.getElem?_toList, ← Code.ops_of_parse whole] at here
    have member := Code.mem_ends_of_isBracket here isBracket 0
    rw [Nat.zero_add, ← loopsEq, ends, List.mem_flatMap] at member
    obtain ⟨⟨first, last⟩, member, isEnd⟩ := member
    exact ⟨first, last, member, by simpa using isEnd⟩
  constructor
  · intro opening opens
    obtain ⟨first, last, member, rfl | rfl⟩ := looped opens rfl
    · exact (partners _ _ member).1 ▸ member
    · have closes : program.ops[opening]? = some .loopClose := (brackets_of_mem_loops loaded member).2
      cases opens.symm.trans closes
  · intro closing closes
    obtain ⟨first, last, member, rfl | rfl⟩ := looped closes rfl
    · have opens : program.ops[closing]? = some .loopOpen := (brackets_of_mem_loops loaded member).1
      cases closes.symm.trans opens
    · exact (partners _ _ member).2 ▸ member

theorem paired_of_load (loaded : load options source = .ok program) : program.Paired := by
  obtain ⟨_, _, _, partners⟩ := blocks_of_load loaded
  obtain ⟨opened, closed⟩ := mem_loops_of_bracket loaded
  have inverse : Set.InvOn program.partner program.partner program.openings program.closings :=
    ⟨fun opening opens => (partners _ _ (opened opening opens)).2,
      fun closing closes => (partners _ _ (closed closing closes)).1⟩
  refine ⟨inverse.bijOn ?_ ?_, inverse, ?_, ?_⟩
  · exact fun opening opens => (brackets_of_mem_loops loaded (opened opening opens)).2
  · exact fun closing closes => (brackets_of_mem_loops loaded (closed closing closes)).1
  · intro opening closing
    constructor
    · intro member
      exact ⟨(brackets_of_mem_loops loaded member).1, (partners _ _ member).1⟩
    · rintro ⟨opens, rfl⟩
      exact opened opening opens
  · intro opening opens
    exact split_of_mem_loops loaded (opened opening opens)

end Loaded

/-- The error names the first closing bracket that is stray or, if there is none, the last opening
bracket that is never closed. -/
theorem load_of_not_matched {options : Options} (valid : options.Valid)
    (lax : options.strict = false) {source : String}
    (unmatched : ¬ Matched (instructionsOf source.toList)) :
    ∃ bracket position,
      load options source = .error (loadFault (.unmatchedBracket bracket position)) ∧
        (bracket = ']' ∧ IsLeast {place | Stray source.toList place} position ∨
          bracket = '[' ∧ (∀ place, ¬ Stray source.toList place) ∧
            IsGreatest {place | Unclosed source.toList place} position) := by
  have judges : Judges (instructionsOf source.toList) (matchLoops 0 [] (instructionsOf source.toList)) :=
    matchLoops_judges (.none .nil)
  rw [load_lax valid lax]
  cases verdict : matchLoops 0 [] (instructionsOf source.toList) with
  | ok loops => exact (unmatched (exists_matchLoops_eq_ok_iff.1 ⟨loops, verdict⟩)).elim
  | error index =>
      rw [verdict] at judges
      obtain ⟨_, _, split, rfl, matched⟩ | ⟨around, opens⟩ := judges
      · obtain ⟨before, c, behind, text, char, rfl, _⟩ := exists_split_of_instructionsOf split
        obtain rfl := Op.ofChar?_eq_close_iff.1 char
        refine ⟨']', before.length, ?_, .inl ⟨rfl, text ▸ isLeast_stray matched behind⟩⟩
        simp only [Program.unmatched, text, getElem?_located char]
      · have none : ∀ place, ¬ Stray source.toList place :=
          not_stray_of_count_le fun _ _ => count_le_of_opens opens
        obtain ⟨_, _, split, rfl, _, matched⟩ := opens.split
        obtain ⟨before, c, behind, text, char, rfl, rfl⟩ := exists_split_of_instructionsOf split
        obtain rfl := Op.ofChar?_eq_open_iff.1 char
        refine ⟨'[', before.length, ?_, .inr ⟨rfl, none, text ▸ isGreatest_unclosed before matched⟩⟩
        simp only [Program.unmatched, text, getElem?_located char]

/-- Brackets are matched exactly. With comments allowed, a text loads if and only if its brackets
match. Then the partners lead back and forth between all opening and all closing brackets, and what is
between two partners matches as well. Otherwise the error has the position of the first closing bracket
that closes more than was opened or, if there is none, of the last opening bracket that is never
closed. -/
theorem loads_iff_brackets_match (options : Options) (valid : options.Valid)
    (lax : options.strict = false) (source : String) :
    ((∃ program, load options source = .ok program) ↔ Matched (instructionsOf source.toList)) ∧
      (∀ program, load options source = .ok program →
        program.ops.toList = instructionsOf source.toList ∧ program.Paired) ∧
      (¬ Matched (instructionsOf source.toList) → ∃ bracket position,
        load options source = .error (loadFault (.unmatchedBracket bracket position)) ∧
          (bracket = ']' ∧ IsLeast {place | Stray source.toList place} position ∨
            bracket = '[' ∧ (∀ place, ¬ Stray source.toList place) ∧
              IsGreatest {place | Unclosed source.toList place} position)) := by
  refine ⟨?_, ?_, load_of_not_matched valid lax⟩
  · rw [load_lax valid lax, ← exists_matchLoops_eq_ok_iff]
    cases matchLoops 0 [] (instructionsOf source.toList) <;> simp
  · intro program loaded
    refine ⟨?_, paired_of_load loaded⟩
    rw [load_lax valid lax] at loaded
    split at loaded
    · cases loaded
    · cases loaded
      rfl

/-- A loop in a loop loads. Of a bracket that closes nothing and one that is never closed, the error has
the first. -/
theorem loads_iff_brackets_match_nested :
    ({} : Options).Valid ∧ ({} : Options).strict = false ∧
      (∃ program, load {} "a[b[-]c]" = .ok program ∧ program.Paired ∧
        program.ops.toList = [.loopOpen, .loopOpen, .decrement, .loopClose, .loopClose]) ∧
      load {} "[-]][" = .error (loadFault (.unmatchedBracket ']' 3)) := by
  have valid : ({} : Options).Valid := by decide
  refine ⟨valid, rfl, ?_, ?_⟩
  · obtain ⟨loads, paired, _⟩ := loads_iff_brackets_match {} valid rfl "a[b[-]c]"
    have matched : Matched (instructionsOf "a[b[-]c]".toList) :=
      Matched.pair (Matched.pair (.basic .decrement))
    obtain ⟨program, loaded⟩ := loads.2 matched
    exact ⟨program, loaded, (paired program loaded).2, (paired program loaded).1⟩
  · obtain ⟨_, _, refused⟩ := loads_iff_brackets_match {} valid rfl "[-]]["
    have loop : Matched (instructionsOf "[-]".toList) := Matched.pair (.basic .decrement)
    have stray : IsLeast {place | Stray "[-]][".toList place} 3 := isLeast_stray loop ['[']
    have unmatched : ¬ Matched (instructionsOf "[-]][".toList) := by
      intro matched
      have text : instructionsOf "[-]][".toList = instructionsOf "[-]]".toList ++ [.loopOpen] := rfl
      exact absurd (matched.count_le text) (by decide)
    obtain ⟨bracket, position, failed, ⟨rfl, least⟩ | ⟨_, none, _⟩⟩ := refused unmatched
    · rwa [least.unique stray] at failed
    · exact (none 3 stray.1).elim

end Program

end Esoterica.Brainfuck
