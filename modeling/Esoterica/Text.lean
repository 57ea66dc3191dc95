/-!
Text as lists of characters: blanks, lines and code points. A blank is a character with the
Unicode property White_Space.
-/

namespace Esoterica.Text

/-- The 25 characters with the property White_Space. -/
def isBlank (c : Char) : Bool :=
  let code := c.toNat
  (9 ≤ code && code ≤ 13) || code == 0x20 || code == 0x85 || code == 0xA0 || code == 0x1680 ||
    (0x2000 ≤ code && code ≤ 0x200A) || code == 0x2028 || code == 0x2029 || code == 0x202F ||
    code == 0x205F || code == 0x3000

/-- The text without the characters of a class at its end. -/
def trimEnd (drop : Char → Bool) (chars : List Char) : List Char :=
  (chars.reverse.dropWhile drop).reverse

/-- The text without blanks at either end. -/
def trim (chars : List Char) : List Char :=
  trimEnd isBlank (chars.dropWhile isBlank)

/-- The lines of a text. A line ends in a linefeed, before which one carriage return is dropped;
the last line may lack its linefeed and then keeps every character. -/
def lines : List Char → List (List Char)
  | [] => []
  | '\n' :: rest => [] :: lines rest
  | '\r' :: '\n' :: rest => [] :: lines rest
  | c :: rest =>
    match lines rest with
    | [] => [[c]]
    | line :: more => (c :: line) :: more

/-- The character with this code point; surrogates and numbers out of range have none. -/
def scalar? (code : Int) : Option Char :=
  if 0 ≤ code ∧ code.toNat.isValidChar then some (Char.ofNat code.toNat) else none

/-- ASCII letters in lower case; other characters stay. -/
def lowerAscii (text : String) : String :=
  text.map Char.toLower

end Esoterica.Text
