import Esoterica.Word
import Esoterica.Text

/-!
The output of a run: a text that only grows.
-/

namespace Esoterica

/-- The characters written so far, and their number. -/
structure Output where
  chars : Array Char
  count : Nat
  countEq : count = chars.size
deriving DecidableEq, Repr

namespace Output

def empty : Output :=
  ⟨#[], 0, Array.size_empty.symm⟩

instance : EmptyCollection Output :=
  ⟨empty⟩

/-- The number of characters written. -/
def length (output : Output) : Nat :=
  output.count

def text (output : Output) : String :=
  String.ofList output.chars.toList

def writeChar (output : Output) (c : Char) : Output :=
  ⟨output.chars.push c, output.count + 1, by simp [output.countEq]⟩

/-- Writes the character with a code point, and U+FFFD for a number that is none. -/
def writeCode (output : Output) (code : Word) : Output :=
  output.writeChar ((Text.scalar? code.toInt).getD (Char.ofNat 0xFFFD))

def writeText (output : Output) (text : String) : Output :=
  ⟨output.chars ++ text.toList, output.count + text.length,
    by simp [output.countEq, ← Array.length_toList, String.length_toList]⟩

end Output

end Esoterica
