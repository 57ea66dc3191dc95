/-!
Ten-trit words and the two operations on their trits. Integers of any size stand for the word that
they leave modulo `3 ^ 10`.
-/

namespace Esoterica.Malbolge

/-- The number of words, `3 ^ 10`, which is also the number of memory cells. -/
abbrev memorySize : Nat := 59049

/-- The greatest word, which also stands for the end of the input. -/
def greatestWord : Int := 59048

/-- The word that an integer stands for. -/
def reduce (value : Int) : Nat :=
  (value % memorySize).toNat

theorem reduce_lt (value : Int) : reduce value < memorySize := by
  unfold reduce memorySize
  omega

/-- The trit that the crazy operation gives for a trit in memory and a trit of the accumulator. -/
def crazyTrit : Nat → Nat → Nat
  | 0, 0 => 1
  | 0, _ => 0
  | 1, 0 => 1
  | 1, 1 => 0
  | 1, _ => 2
  | _, 0 => 2
  | _, 1 => 2
  | _, _ => 1

/-- Combines the low trits of two words one by one. -/
def crazyTrits : Nat → Nat → Nat → Nat
  | 0, _, _ => 0
  | count + 1, d, a => crazyTrit (d % 3) (a % 3) + 3 * crazyTrits count (d / 3) (a / 3)

/-- The crazy operation on a memory cell and the accumulator. -/
def crazy (d a : Int) : Int :=
  crazyTrits 10 (reduce d) (reduce a)

/-- A word turned by one trit: the lowest becomes the highest. -/
def rotate (value : Int) : Int :=
  let word := reduce value
  word / 3 + word % 3 * 19683

end Esoterica.Malbolge
