/-!
Sixty-four bit words, the values of every stack, tape and grid. Arithmetic on words wraps around;
an operation that reports the wrap instead says so in its name.
-/

namespace Esoterica

/-- A signed word of 64 bits. -/
abbrev Word := Int64

namespace Word

/-- The largest word, `2 ^ 63 - 1`. -/
def greatest : Int := 9223372036854775807

/-- The smallest word, `- 2 ^ 63`. -/
def least : Int := -9223372036854775808

/-- The word with this value, if there is one. -/
def ofInt? (value : Int) : Option Word :=
  if least ≤ value ∧ value ≤ greatest then some (Int64.ofInt value) else none

/-- The sum of two words, unless it leaves the range of words. -/
def add? (a b : Word) : Option Word :=
  ofInt? (a.toInt + b.toInt)

/-- The word nearest to a number. -/
def nearest (value : Int) : Word :=
  Int64.ofInt (max least (min value greatest))

/-- A decimal digit put behind a number. The product and the sum stop at the ends of the range of
words. -/
def appendDigit (value : Word) (digit : Nat) : Word :=
  nearest ((nearest (value.toInt * 10)).toInt + digit)

/-- One for a true condition and zero for a false one. -/
def ofBool (condition : Bool) : Word :=
  if condition then 1 else 0

/-- The code point of a character. -/
def ofChar (c : Char) : Word :=
  Int64.ofNat c.toNat

/-- The quotient rounded down: the truncated one, less one where the signs differ and a remainder
is left. -/
def floorDiv (a b : Word) : Word :=
  if a % b ≠ 0 ∧ decide (a < 0) ≠ decide (b < 0) then a / b - 1 else a / b

/-- The remainder with the sign of the divisor. -/
def floorMod (a b : Word) : Word :=
  if a % b ≠ 0 ∧ decide (a % b < 0) ≠ decide (b < 0) then a % b + b else a % b

/-- The word in decimal. -/
def text (value : Word) : String :=
  toString value.toInt

/-- The number that these decimal digits spell, if there is a digit and nothing else. -/
def digits? (chars : List Char) : Option Nat :=
  if chars.isEmpty || !chars.all Char.isDigit then none
  else some (Nat.ofDigitChars 10 chars 0)

/-- A natural number in decimal below the bound; one plus sign may stand in front. -/
def parseNat? (bound : Nat) (chars : List Char) : Option Nat :=
  let magnitude := match chars with
    | '+' :: rest => digits? rest
    | _ => digits? chars
  magnitude.filter (· < bound)

/-- A word in decimal; one sign may stand in front. -/
def parse? : List Char → Option Word
  | '-' :: rest => (digits? rest).bind fun magnitude => ofInt? (-magnitude)
  | '+' :: rest => (digits? rest).bind fun magnitude => ofInt? magnitude
  | chars => (digits? chars).bind fun magnitude => ofInt? magnitude

end Word

end Esoterica
