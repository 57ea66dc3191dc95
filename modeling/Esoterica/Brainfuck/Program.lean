import Esoterica.Error
import Esoterica.Options
import Esoterica.Text

/-!
Brainfuck programs: eight instructions among comments, with every loop closed.
-/

namespace Esoterica.Brainfuck

inductive Op where
  | right
  | left
  | increment
  | decrement
  | output
  | input
  | loopOpen
  | loopClose
deriving DecidableEq, Repr

namespace Op

def ofChar? : Char → Option Op
  | '>' => some right
  | '<' => some left
  | '+' => some increment
  | '-' => some decrement
  | '.' => some output
  | ',' => some input
  | '[' => some loopOpen
  | ']' => some loopClose
  | _ => none

/-- The instruction in a log. -/
def name : Op → String
  | right => "Right"
  | left => "Left"
  | increment => "Increment"
  | decrement => "Decrement"
  | output => "Output"
  | input => "Input"
  | loopOpen => "LoopOpen"
  | loopClose => "LoopClose"

end Op

def loadFault (error : Error) : Error :=
  error.during "tape::preprocess"

/-- The instructions of a source with their positions. Other characters are comments; a strict
reading takes only blanks for comments. -/
def scan (strict : Bool) (position : Nat) : List Char → Except Error (List (Op × Nat))
  | [] => .ok []
  | c :: rest =>
    match Op.ofChar? c with
    | some op => (scan strict (position + 1) rest).map ((op, position) :: ·)
    | none =>
      if strict && !Text.isBlank c then
        .error (loadFault (.invalidInstruction position s!"'{c}'"))
      else scan strict (position + 1) rest

/-- The loops of a program as pairs of indices, in the order in which they close, or the index of a
bracket without partner. The loops that are open are given from the innermost outward. -/
def matchLoops (index : Nat) (opened : List Nat) : List Op → Except Nat (List (Nat × Nat))
  | [] =>
    match opened with
    | [] => .ok []
    | innermost :: _ => .error innermost
  | .loopOpen :: rest => matchLoops (index + 1) (index :: opened) rest
  | .loopClose :: rest =>
    match opened with
    | [] => .error index
    | partner :: outer => (matchLoops (index + 1) outer rest).map ((partner, index) :: ·)
  | _ :: rest => matchLoops (index + 1) opened rest

/-- For each instruction the other end of its loop; an instruction that is no bracket is its own
partner. -/
def partnerTable (size : Nat) (loops : List (Nat × Nat)) : Array Nat :=
  loops.foldl
    (fun table (opening, closing) =>
      (table.setIfInBounds opening closing).setIfInBounds closing opening)
    (Array.range size)

/-- A program in which every loop is closed. -/
structure Program where
  ops : Array Op
  /-- Where each instruction stands in the source. -/
  positions : Array Nat
  /-- The openings of loops with their closings. -/
  loops : List (Nat × Nat)
  partners : Array Nat
deriving DecidableEq, Repr

namespace Program

/-- The other end of the loop at an index. -/
def partner (program : Program) (index : Nat) : Nat :=
  (program.partners[index]?).getD index

/-- The error for a bracket without partner. -/
def unmatched (instructions : List (Op × Nat)) (index : Nat) : Error :=
  match instructions[index]? with
  | some (.loopClose, position) => loadFault (.unmatchedBracket ']' position)
  | some (_, position) => loadFault (.unmatchedBracket '[' position)
  | none => loadFault (.unmatchedBracket '[' index)

/-- The program of a source text. -/
def parse (strict : Bool) (source : String) : Except Error Program := do
  let instructions ← scan strict 0 source.toList
  let ops := instructions.map (·.1)
  match matchLoops 0 [] ops with
  | .error index => .error (unmatched instructions index)
  | .ok loops =>
    return {
      ops := ops.toArray
      positions := (instructions.map (·.2)).toArray
      loops
      partners := partnerTable ops.length loops }

/-- The program of a source text, under options with which it can run. -/
def load (options : Options) (source : String) : Except Error Program := do
  options.validate
  parse options.strict source

end Program

end Esoterica.Brainfuck
