import Esoterica.Brainfuck.Program
import Esoterica.Proofs.Loading

/-!
Programs in blocks, in which a loop is one piece. The instructions of every program that loads are
those of one program in blocks, and its table of partners leads from each end of a loop to the other.
-/

namespace Esoterica.Brainfuck

/-- The instructions that are no brackets. -/
inductive Basic where
  | right
  | left
  | increment
  | decrement
  | output
  | input
deriving DecidableEq, Repr

def Basic.op : Basic → Op
  | right => .right
  | left => .left
  | increment => .increment
  | decrement => .decrement
  | output => .output
  | input => .input

theorem Op.bracket_or_basic (op : Op) :
    op = .loopOpen ∨ op = .loopClose ∨ ∃ basic : Basic, op = basic.op := by
  cases op with
  | loopOpen => exact .inl rfl
  | loopClose => exact .inr (.inl rfl)
  | right => exact .inr (.inr ⟨.right, rfl⟩)
  | left => exact .inr (.inr ⟨.left, rfl⟩)
  | increment => exact .inr (.inr ⟨.increment, rfl⟩)
  | decrement => exact .inr (.inr ⟨.decrement, rfl⟩)
  | output => exact .inr (.inr ⟨.output, rfl⟩)
  | input => exact .inr (.inr ⟨.input, rfl⟩)

/-- A program in blocks: instructions and loops one after another, each loop with its own body. -/
inductive Code where
  | done
  | act (basic : Basic) (next : Code)
  | loop (body next : Code)
deriving DecidableEq, Repr

namespace Code

/-- The instructions of a program in a row. -/
def ops : Code → List Op
  | done => []
  | act basic next => basic.op :: next.ops
  | loop body next => .loopOpen :: (body.ops ++ .loopClose :: next.ops)

/-- The number of instructions. -/
def size : Code → Nat
  | done => 0
  | act _ next => next.size + 1
  | loop body next => body.size + next.size + 2

/-- The loops of a program that starts at an index, in the order in which they close. -/
def loops (index : Nat) : Code → List (Nat × Nat)
  | done => []
  | act _ next => next.loops (index + 1)
  | loop body next =>
    body.loops (index + 1) ++
      (index, index + body.size + 1) :: next.loops (index + body.size + 2)

/-- The blocks of a text from some place on: the rest of the innermost one there, then what follows
each of the loops around it. -/
abbrev Blocks := Code × List Code

/-- The blocks of a text with one instruction more in front. An opening bracket needs a bracket that
closes its loop. -/
def extend : Op → Blocks → Option Blocks
  | .loopOpen, (_, []) => none
  | .loopOpen, (body, next :: outer) => some (loop body next, outer)
  | .loopClose, (first, outer) => some (done, first :: outer)
  | .right, (first, outer) => some (act .right first, outer)
  | .left, (first, outer) => some (act .left first, outer)
  | .increment, (first, outer) => some (act .increment first, outer)
  | .decrement, (first, outer) => some (act .decrement first, outer)
  | .output, (first, outer) => some (act .output first, outer)
  | .input, (first, outer) => some (act .input first, outer)

/-- The blocks of a text, which is read from its end. -/
def blocks : List Op → Option Blocks
  | [] => some (done, [])
  | op :: rest => (blocks rest).bind (extend op)

/-- The program in blocks with these instructions, if every bracket has its partner. -/
def parse (ops : List Op) : Option Code :=
  match blocks ops with
  | some (code, []) => some code
  | _ => none

theorem length_ops (code : Code) : code.ops.length = code.size := by
  induction code with
  | done => rfl
  | act basic next nextLength => simp [ops, size, nextLength]
  | loop body next bodyLength nextLength =>
      simp only [ops, size, List.length_cons, List.length_append, bodyLength, nextLength]
      omega

/-- The instructions of blocks, with the brackets between them. -/
def spread (blocks : Blocks) : List Op :=
  blocks.1.ops ++ blocks.2.flatMap fun code => .loopClose :: code.ops

theorem extend_basic (basic : Basic) (first : Code) (outer : List Code) :
    extend basic.op (first, outer) = some (act basic first, outer) := by
  cases basic <;> rfl

theorem extend_spread {op : Op} {before after : Blocks} (extended : extend op before = some after) :
    spread after = op :: spread before := by
  obtain ⟨first, outer⟩ := before
  obtain rfl | rfl | ⟨basic, rfl⟩ := op.bracket_or_basic
  · cases outer with
    | nil => simp [extend] at extended
    | cons next outer =>
        simp only [extend, Option.some.injEq] at extended
        simp [← extended, spread, ops]
  · simp only [extend, Option.some.injEq] at extended
    simp [← extended, spread, ops]
  · rw [extend_basic, Option.some.injEq] at extended
    simp [← extended, spread, ops]

theorem blocks_spread {instructions : List Op} {found : Blocks}
    (read : blocks instructions = some found) : spread found = instructions := by
  induction instructions generalizing found with
  | nil =>
      simp only [blocks, Option.some.injEq] at read
      simp [← read, spread, ops]
  | cons op rest inductionHypothesis =>
      rw [blocks, Option.bind_eq_some_iff] at read
      obtain ⟨before, readRest, extended⟩ := read
      rw [extend_spread extended, inductionHypothesis readRest]

/-- A text parses to a program with just its instructions. -/
theorem ops_of_parse {instructions : List Op} {code : Code}
    (parsed : parse instructions = some code) : code.ops = instructions := by
  unfold parse at parsed
  split at parsed
  · rename_i found read
    simp only [Option.some.injEq] at parsed
    subst parsed
    simpa [spread] using blocks_spread read
  · simp at parsed

end Code

theorem matchLoops_basic (index : Nat) (opened : List Nat) (basic : Basic) (rest : List Op) :
    matchLoops index opened (basic.op :: rest) = matchLoops (index + 1) opened rest := by
  cases basic <;> rfl

open Code in
/-- Where the brackets match there are blocks: the innermost, and one for each loop that is open. -/
theorem blocks_of_matchLoops {index : Nat} {opened : List Nat} {instructions : List Op}
    {loops : List (Nat × Nat)} (matched : matchLoops index opened instructions = .ok loops) :
    ∃ first outer, blocks instructions = some (first, outer) ∧ outer.length = opened.length := by
  induction instructions generalizing index opened loops with
  | nil =>
      cases opened with
      | nil => exact ⟨done, [], rfl, rfl⟩
      | cons innermost opened => simp [matchLoops] at matched
  | cons op rest inductionHypothesis =>
      obtain rfl | rfl | ⟨basic, rfl⟩ := op.bracket_or_basic
      · obtain ⟨body, outer, read, lengths⟩ := inductionHypothesis matched
        cases outer with
        | nil => simp at lengths
        | cons next outer =>
            exact ⟨loop body next, outer, by simp [blocks, read, extend], by simpa using lengths⟩
      · cases opened with
        | nil => simp [matchLoops] at matched
        | cons partner opened =>
            cases matchedRest : matchLoops (index + 1) opened rest with
            | error index => simp [matchLoops, matchedRest, Except.map] at matched
            | ok later =>
                obtain ⟨first, outer, read, lengths⟩ := inductionHypothesis matchedRest
                exact ⟨done, first :: outer, by simp [blocks, read, extend], by simp [lengths]⟩
      · rw [matchLoops_basic] at matched
        obtain ⟨first, outer, read, lengths⟩ := inductionHypothesis matched
        exact ⟨act basic first, outer, by simp [blocks, read, extend_basic], lengths⟩

/-- Matching goes through a program in blocks and comes out with the same loops open. -/
theorem matchLoops_ops (code : Code) (index : Nat) (opened : List Nat) (rest : List Op) :
    matchLoops index opened (code.ops ++ rest) =
      (matchLoops (index + code.size) opened rest).map (code.loops index ++ ·) := by
  induction code generalizing index opened rest with
  | done =>
      cases matched : matchLoops index opened rest <;> simp [Code.ops, Code.size, Code.loops,
        matched, Except.map]
  | act basic next nextMatch =>
      rw [Code.ops, List.cons_append, matchLoops_basic, nextMatch]
      simp only [Code.size, Code.loops, Nat.add_assoc, Nat.add_comm 1]
  | loop body next bodyMatch nextMatch =>
      rw [Code.ops, List.cons_append, List.append_assoc, List.cons_append, matchLoops, bodyMatch,
        matchLoops, nextMatch]
      have after : index + 1 + body.size + 1 + next.size = index + (body.loop next).size := by
        simp only [Code.size]
        omega
      have closing : index + 1 + body.size = index + body.size + 1 := by omega
      rw [after, closing]
      cases matched : matchLoops (index + (body.loop next).size) opened rest <;>
        simp [Code.loops, Except.map]

/-- The indices of both brackets of every loop. -/
def ends (loops : List (Nat × Nat)) : List Nat :=
  loops.flatMap fun (opening, closing) => [opening, closing]

theorem ends_append (first second : List (Nat × Nat)) :
    ends (first ++ second) = ends first ++ ends second := by
  simp [ends]

theorem ends_cons (opening closing : Nat) (loops : List (Nat × Nat)) :
    ends ((opening, closing) :: loops) = opening :: closing :: ends loops := by
  simp [ends]

/-- The brackets of a program lie within it. -/
theorem Code.within_of_mem_ends {code : Code} {index bracket : Nat}
    (member : bracket ∈ ends (code.loops index)) :
    index ≤ bracket ∧ bracket < index + code.size := by
  induction code generalizing index with
  | done => simp [loops, ends] at member
  | act basic next nextWithin =>
      have := nextWithin member
      simp only [size]
      omega
  | loop body next bodyWithin nextWithin =>
      rw [loops, ends_append, ends_cons, List.mem_append, List.mem_cons, List.mem_cons] at member
      simp only [size]
      obtain inBody | rfl | rfl | inNext := member
      · have := bodyWithin inBody
        omega
      · omega
      · omega
      · have := nextWithin inNext
        omega

/-- No bracket belongs to two loops. -/
theorem Code.ends_nodup (code : Code) (index : Nat) : (ends (code.loops index)).Nodup := by
  induction code generalizing index with
  | done => simp [loops, ends]
  | act basic next nextDistinct => exact nextDistinct (index + 1)
  | loop body next bodyDistinct nextDistinct =>
      have bodyWithin {bracket : Nat} (member : bracket ∈ ends (body.loops (index + 1))) :=
        within_of_mem_ends member
      have nextWithin {bracket : Nat} (member : bracket ∈ ends (next.loops (index + body.size + 2))) :=
        within_of_mem_ends member
      rw [loops, ends_append, ends_cons, List.nodup_append, List.nodup_cons, List.nodup_cons,
        List.mem_cons]
      refine ⟨bodyDistinct _, ⟨?_, ?_, nextDistinct _⟩, ?_⟩
      · rintro (equal | member)
        · omega
        · have := nextWithin member
          omega
      · intro member
        have := nextWithin member
        omega
      · intro first inBody second inRest
        have before := bodyWithin inBody
        rw [List.mem_cons, List.mem_cons] at inRest
        obtain rfl | rfl | inNext := inRest
        · omega
        · omega
        · have := nextWithin inNext
          omega

/-- Enters both ends of a loop in a table. -/
def link (table : Array Nat) (loop : Nat × Nat) : Array Nat :=
  (table.setIfInBounds loop.1 loop.2).setIfInBounds loop.2 loop.1

theorem partnerTable_eq_link (size : Nat) (loops : List (Nat × Nat)) :
    partnerTable size loops = loops.foldl link (Array.range size) := rfl

theorem size_link (table : Array Nat) (loop : Nat × Nat) : (link table loop).size = table.size := by
  simp [link]

/-- Entering loops leaves other indices as they are. -/
theorem getElem?_foldl_link {loops : List (Nat × Nat)} {index : Nat} (absent : index ∉ ends loops)
    (table : Array Nat) : (loops.foldl link table)[index]? = table[index]? := by
  induction loops generalizing table with
  | nil => rfl
  | cons loop loops inductionHypothesis =>
      rw [ends_cons, List.mem_cons, List.mem_cons, not_or, not_or] at absent
      obtain ⟨notOpening, notClosing, absent⟩ := absent
      rw [List.foldl_cons, inductionHypothesis absent, link,
        Array.getElem?_setIfInBounds_ne (Ne.symm notClosing),
        Array.getElem?_setIfInBounds_ne (Ne.symm notOpening)]

/-- Where no bracket belongs to two loops, the table leads from each end of a loop to the other. -/
theorem foldl_link_partner {loops : List (Nat × Nat)} (distinct : (ends loops).Nodup)
    {table : Array Nat} (within : ∀ bracket ∈ ends loops, bracket < table.size)
    {opening closing : Nat} (member : (opening, closing) ∈ loops) :
    (loops.foldl link table)[opening]? = some closing ∧
      (loops.foldl link table)[closing]? = some opening := by
  induction loops generalizing table with
  | nil => simp at member
  | cons loop loops inductionHypothesis =>
      rw [List.foldl_cons]
      rw [ends_cons] at distinct within
      have linkedSize := size_link table loop
      obtain rfl | later := List.mem_cons.mp member
      · simp only [List.nodup_cons, List.mem_cons, not_or] at distinct
        obtain ⟨⟨different, openingOnce⟩, closingOnce, _⟩ := distinct
        have openingWithin := within opening (by simp)
        have closingWithin := within closing (by simp)
        rw [getElem?_foldl_link openingOnce, getElem?_foldl_link closingOnce]
        simp [link, openingWithin, closingWithin, Ne.symm different]
      · simp only [List.nodup_cons] at distinct
        refine inductionHypothesis distinct.2.2 ?_ later
        intro bracket inLoops
        rw [linkedSize]
        exact within bracket (by simp [inLoops])

namespace Program

/-- A program in blocks stands at an index: its instructions are there, and each bracket has the
other end of its loop as its partner. -/
def Holds (program : Program) (index : Nat) : Code → Prop
  | .done => True
  | .act basic next => program.ops[index]? = some basic.op ∧ program.Holds (index + 1) next
  | .loop body next =>
    (program.ops[index]? = some .loopOpen ∧ program.partner index = index + body.size + 1) ∧
      program.Holds (index + 1) body ∧
      (program.ops[index + body.size + 1]? = some .loopClose ∧
        program.partner (index + body.size + 1) = index) ∧
      program.Holds (index + body.size + 2) next

theorem holds_of_ops {program : Program} (code : Code) (before rest : List Op)
    (text : program.ops.toList = before ++ (code.ops ++ rest))
    (partners : ∀ opening closing, (opening, closing) ∈ code.loops before.length →
      program.partner opening = closing ∧ program.partner closing = opening) :
    program.Holds before.length code := by
  induction code generalizing before rest with
  | done => trivial
  | act basic next nextHolds =>
      refine ⟨by simp [← Array.getElem?_toList, text, Code.ops], ?_⟩
      have holds := nextHolds (before ++ [basic.op]) rest (by simp [text, Code.ops])
        (by simpa [Code.loops] using partners)
      simpa using holds
  | loop body next bodyHolds nextHolds =>
      have here := partners before.length (before.length + body.size + 1) (by simp [Code.loops])
      have toClosing : before.length + body.size + 1 =
          (before ++ Op.loopOpen :: body.ops).length := by
        simp [body.length_ops, Nat.add_assoc]
      have pastClosing : before.length + body.size + 2 =
          (before ++ Op.loopOpen :: (body.ops ++ [Op.loopClose])).length := by
        simp [body.length_ops, Nat.add_assoc]
      refine ⟨⟨?_, here.1⟩, ?_, ⟨?_, here.2⟩, ?_⟩
      · simp [← Array.getElem?_toList, text, Code.ops]
      · have holds := bodyHolds (before ++ [.loopOpen]) (.loopClose :: (next.ops ++ rest))
          (by simp [text, Code.ops]) (by
            intro opening closing member
            apply partners
            rw [List.length_append, List.length_singleton] at member
            simp [Code.loops, member])
        simpa using holds
      · have split : program.ops.toList =
            (before ++ .loopOpen :: body.ops) ++ .loopClose :: (next.ops ++ rest) := by
          simp [text, Code.ops]
        rw [← Array.getElem?_toList, split, toClosing]
        simp
      · rw [pastClosing]
        apply nextHolds _ rest
        · simp [text, Code.ops]
        · intro opening closing member
          apply partners
          rw [← pastClosing] at member
          simp [Code.loops, member]

/-- The program of a text whose brackets match. -/
theorem parse_eq_ok {strict : Bool} {source : String} {program : Program}
    (parsed : parse strict source = .ok program) :
    matchLoops 0 [] program.ops.toList = .ok program.loops ∧
      program.partners = partnerTable program.ops.size program.loops := by
  obtain ⟨instructions, _, built⟩ := bind_eq_ok_iff.mp parsed
  dsimp only at built
  split at built
  · simp at built
  · rename_i loops matched
    cases built
    exact ⟨by simpa using matched, by simp⟩

/-- A loaded program has the loops of a program in blocks, and the partner of each end of a loop is the
other one. -/
theorem blocks_of_load {options : Options} {source : String} {program : Program}
    (loaded : load options source = .ok program) :
    ∃ code, Code.parse program.ops.toList = some code ∧ program.loops = code.loops 0 ∧
      ∀ opening closing, (opening, closing) ∈ program.loops →
        program.partner opening = closing ∧ program.partner closing = opening := by
  obtain ⟨_, _, parsed⟩ := bind_eq_ok_iff.mp loaded
  obtain ⟨matched, table⟩ := parse_eq_ok parsed
  obtain ⟨code, outer, read, lengths⟩ := blocks_of_matchLoops matched
  obtain rfl : outer = [] := List.length_eq_zero_iff.mp lengths
  have whole : Code.parse program.ops.toList = some code := by simp [Code.parse, read]
  have text := Code.ops_of_parse whole
  have size : code.size = program.ops.size := by rw [← code.length_ops, text, Array.length_toList]
  -- Matching the instructions of the blocks once more names the loops.
  have loopsEq : program.loops = code.loops 0 := by
    have again := matchLoops_ops code 0 [] []
    rw [List.append_nil, text, matched] at again
    simpa [matchLoops, Except.map] using again
  refine ⟨code, whole, loopsEq, ?_⟩
  intro opening closing member
  rw [loopsEq] at member table
  have within : ∀ bracket ∈ ends (code.loops 0), bracket < (Array.range code.size).size := by
    intro bracket inLoops
    have := Code.within_of_mem_ends inLoops
    simpa using this
  have linked := foldl_link_partner (code.ends_nodup 0) within member
  rw [← partnerTable_eq_link, size, ← table] at linked
  simp [partner, linked]

/-- A loaded program is one in blocks from its first instruction to its last. -/
theorem holds_of_load {options : Options} {source : String} {program : Program}
    (loaded : load options source = .ok program) :
    ∃ code, Code.parse program.ops.toList = some code ∧ code.size = program.ops.size ∧
      program.Holds 0 code := by
  obtain ⟨code, whole, loopsEq, partners⟩ := blocks_of_load loaded
  have text := Code.ops_of_parse whole
  refine ⟨code, whole, by rw [← code.length_ops, text, Array.length_toList], ?_⟩
  exact holds_of_ops code [] [] (by simp [text]) (loopsEq ▸ partners)

end Program

end Esoterica.Brainfuck
