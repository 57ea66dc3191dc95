import Esoterica.Word

/-!
The instructions of Whitespace and their spellings in blanks, tabs and linefeeds. No spelling
continues another one.
-/

namespace Esoterica.Whitespace

/-- A character that counts. -/
inductive Symbol where
  | space
  | tab
  | linefeed
deriving DecidableEq, Repr

namespace Symbol

def ofChar? : Char → Option Symbol
  | ' ' => some space
  | '\t' => some tab
  | '\n' => some linefeed
  | _ => none

def toChar : Symbol → Char
  | space => ' '
  | tab => '\t'
  | linefeed => '\n'

/-- The binary digit that a symbol stands for in a number. -/
def digit : Symbol → Nat
  | tab => 1
  | space | linefeed => 0

/-- Which of the three symbols it is. -/
def index : Symbol → Fin 3
  | space => ⟨0, Nat.zero_lt_succ 2⟩
  | tab => ⟨1, Nat.one_lt_succ_succ 1⟩
  | linefeed => ⟨2, Nat.lt_succ_self 2⟩

/-- The visible letter for a symbol. -/
def letter : Symbol → Char
  | space => 'S'
  | tab => 'T'
  | linefeed => 'L'

end Symbol

/-- A label is a row of blanks and tabs; the tabs are the true marks. -/
structure Label where
  marks : List Bool
deriving DecidableEq, Repr

namespace Label

/-- The label in visible letters. -/
def spelling (label : Label) : String :=
  String.ofList (label.marks.map fun tab => if tab then 'T' else 'S')

/-- The label in a report. -/
def text (label : Label) : String :=
  if label.marks.isEmpty then "<empty>" else label.spelling

end Label

inductive Op where
  | push (value : Word)
  | dup
  | copy (depth : Word)
  | swap
  | discard
  | slide (count : Word)
  | add
  | sub
  | mul
  | div
  | mod
  | store
  | retrieve
  | mark (label : Label)
  | call (label : Label)
  | jump (label : Label)
  | jumpZero (label : Label)
  | jumpNegative (label : Label)
  | ret
  | exit
  | outChar
  | outNum
  | readChar
  | readNum
deriving DecidableEq, Repr

namespace Op

/-- The label to which an instruction may jump. -/
def target? : Op → Option Label
  | call label | jump label | jumpZero label | jumpNegative label => some label
  | _ => none

/-- The instruction in a log. -/
def name : Op → String
  | push value => s!"Push({value.text})"
  | dup => "Dup"
  | copy depth => s!"Copy({depth.text})"
  | swap => "Swap"
  | discard => "Discard"
  | slide count => s!"Slide({count.text})"
  | add => "Add"
  | sub => "Sub"
  | mul => "Mul"
  | div => "Div"
  | mod => "Mod"
  | store => "Store"
  | retrieve => "Retrieve"
  | mark label => s!"Mark(Label(\"{label.spelling}\"))"
  | call label => s!"Call(Label(\"{label.spelling}\"))"
  | jump label => s!"Jump(Label(\"{label.spelling}\"))"
  | jumpZero label => s!"JumpZero(Label(\"{label.spelling}\"))"
  | jumpNegative label => s!"JumpNegative(Label(\"{label.spelling}\"))"
  | ret => "Return"
  | exit => "Exit"
  | outChar => "OutChar"
  | outNum => "OutNum"
  | readChar => "ReadChar"
  | readNum => "ReadNum"

end Op

/-- What follows the spelling of an instruction: nothing, a number or a label. -/
inductive Form where
  | plain (op : Op)
  | number (build : Word → Op)
  | label (build : Label → Op)

/-- What is left of a spelling, and the instruction that it spells. -/
structure Spelling where
  symbols : List Symbol
  form : Form

/-- All instructions with their spellings. -/
def spellings : List Spelling := [
  ⟨[.space, .space], .number .push⟩,
  ⟨[.space, .linefeed, .space], .plain .dup⟩,
  ⟨[.space, .tab, .space], .number .copy⟩,
  ⟨[.space, .linefeed, .tab], .plain .swap⟩,
  ⟨[.space, .linefeed, .linefeed], .plain .discard⟩,
  ⟨[.space, .tab, .linefeed], .number .slide⟩,
  ⟨[.tab, .space, .space, .space], .plain .add⟩,
  ⟨[.tab, .space, .space, .tab], .plain .sub⟩,
  ⟨[.tab, .space, .space, .linefeed], .plain .mul⟩,
  ⟨[.tab, .space, .tab, .space], .plain .div⟩,
  ⟨[.tab, .space, .tab, .tab], .plain .mod⟩,
  ⟨[.tab, .tab, .space], .plain .store⟩,
  ⟨[.tab, .tab, .tab], .plain .retrieve⟩,
  ⟨[.linefeed, .space, .space], .label .mark⟩,
  ⟨[.linefeed, .space, .tab], .label .call⟩,
  ⟨[.linefeed, .space, .linefeed], .label .jump⟩,
  ⟨[.linefeed, .tab, .space], .label .jumpZero⟩,
  ⟨[.linefeed, .tab, .tab], .label .jumpNegative⟩,
  ⟨[.linefeed, .tab, .linefeed], .plain .ret⟩,
  ⟨[.linefeed, .linefeed, .linefeed], .plain .exit⟩,
  ⟨[.tab, .linefeed, .space, .space], .plain .outChar⟩,
  ⟨[.tab, .linefeed, .space, .tab], .plain .outNum⟩,
  ⟨[.tab, .linefeed, .tab, .space], .plain .readChar⟩,
  ⟨[.tab, .linefeed, .tab, .tab], .plain .readNum⟩]

end Esoterica.Whitespace
