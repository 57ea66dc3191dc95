import Esoterica.Text
import Esoterica.Word

/-!
Characters and their code points, and the lines of a text.
-/

namespace Esoterica

/-- A text has at most as many lines, and at most as long ones, as it has characters. -/
theorem Text.length_lines_le (chars : List Char) :
    (lines chars).length ≤ chars.length ∧ ∀ line ∈ lines chars, line.length ≤ chars.length := by
  fun_induction lines chars with
  | case1 => simp
  | case2 rest inductionHypothesis => grind
  | case3 rest inductionHypothesis => grind
  | case4 c rest _ _ rest_lines inductionHypothesis => grind
  | case5 c rest _ _ line more rest_lines inductionHypothesis => grind

theorem Text.toNat_ofNat {code : Nat} (valid : code.isValidChar) : (Char.ofNat code).toNat = code := by
  rw [Char.ofNat, dif_pos valid]
  rfl

theorem Text.toNat_le (c : Char) : c.toNat ≤ 1114111 := by
  have valid := c.valid
  simp only [UInt32.isValidChar, Nat.isValidChar] at valid
  change c.val.toNat ≤ 1114111
  omega

/-- The character of a code point is read back from it. -/
theorem Text.scalar?_toNat (c : Char) : Text.scalar? c.toNat = some c := by
  have valid : c.toNat.isValidChar := c.valid
  simp [scalar?, valid]

theorem Word.toInt_ofChar (c : Char) : (Word.ofChar c).toInt = c.toNat := by
  have small := Text.toNat_le c
  rw [ofChar, Int64.toInt_ofNat_of_lt (by omega)]

/-- No two characters have one code point. -/
theorem Word.ofChar_inj {first second : Char} : ofChar first = ofChar second ↔ first = second := by
  rw [← Int64.toInt_inj, toInt_ofChar, toInt_ofChar, Int.ofNat_inj, Char.toNat_inj]

theorem Word.eq_ofChar_of_scalar? {cell : Word} {c : Char} (scalar : Text.scalar? cell.toInt = some c) :
    cell = Word.ofChar c := by
  unfold Text.scalar? at scalar
  split at scalar
  · rename_i valid
    cases scalar
    apply Int64.toInt_inj.1
    rw [toInt_ofChar, Text.toNat_ofNat valid.2]
    omega
  · cases scalar

end Esoterica
