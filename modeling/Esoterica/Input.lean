import Esoterica.Word
import Esoterica.Text

/-!
The input of a run: a text that the program reads from front to back by characters, numbers or
lines.
-/

namespace Esoterica

/-- The characters that the program has not read, and how many it has passed. -/
structure Input where
  remaining : List Char := []
  position : Nat := 0
deriving DecidableEq, Repr

namespace Input

def ofString (text : String) : Input :=
  ⟨text.toList, 0⟩

def isExhausted (input : Input) : Bool :=
  input.remaining.isEmpty

def peek? (input : Input) : Option Char :=
  input.remaining.head?

/-- Passes some characters. The position goes on, whether they are there or not. -/
def skip (input : Input) (count : Nat) : Input :=
  ⟨input.remaining.drop count, input.position + count⟩

/-- Takes the next character. -/
def readChar (input : Input) : Option Char × Input :=
  match input.remaining with
  | [] => (none, input)
  | c :: _ => (some c, input.skip 1)

/-- Whether a text starts with a decimal digit. -/
def startsWithDigit : List Char → Bool
  | c :: _ => c.isDigit
  | [] => false

/-- Counts digits with 32 bits. The count wraps around, where a host that checks its arithmetic stops. -/
def countDigits (digits : List Char) : Int32 :=
  digits.foldl (fun count _ => count + 1) 0

/-- The word that digits spell, put one behind the other, so that a number past the largest word is that
word. -/
def magnitude (digits : List Char) : Word :=
  digits.foldl (fun value c => value.appendDigit (c.toNat - '0'.toNat)) 0

/-- Takes digits. Where none has been counted, one more character is taken and the number is zero. -/
def readDigits (input : Input) (negative : Bool) : Word × Input :=
  let digits := input.remaining.takeWhile Char.isDigit
  let behind := input.skip digits.length
  if countDigits digits = 0 then (0, behind.skip 1)
  else (if negative then -magnitude digits else magnitude digits, behind)

/-- Takes a decimal number. Blanks in front are skipped, and a sign counts only right before a digit.
Only a spent input gives none. -/
def readNumber (input : Input) : Option Word × Input :=
  let input := input.skip (input.remaining.takeWhile Text.isBlank).length
  match input.remaining with
  | [] => (none, input)
  | first :: rest =>
    let (value, input) :=
      if (first == '-' || first == '+') && startsWithDigit rest then
        (input.skip 1).readDigits (first == '-')
      else input.readDigits false
    (some value, input)

/-- Takes the text up to the next linefeed, and the linefeed with it. -/
def readLine (input : Input) : Option (List Char) × Input :=
  if input.isExhausted then (none, input)
  else
    let line := input.remaining.takeWhile (· ≠ '\n')
    (some line, (input.skip line.length).readChar.2)

end Input

end Esoterica
