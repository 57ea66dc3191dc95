import Esoterica.Proofs.Befunge.Shape

/-!
Steps on a field that wraps. The box around its rows is a torus, and every step is a translation of it,
whether the step ends on a cell, behind the end of a short row, outside the box or beyond all words.
-/

namespace Esoterica

theorem Pointer.advance?_eq_some_iff {pointer ahead : Pointer} :
    pointer.advance? = some ahead ↔
      ahead.x.toInt = pointer.x.toInt + pointer.dx.toInt ∧
      ahead.y.toInt = pointer.y.toInt + pointer.dy.toInt ∧
      ahead.dx = pointer.dx ∧ ahead.dy = pointer.dy := by
  rw [← Word.add?_eq_some_iff, ← Word.add?_eq_some_iff]
  obtain ⟨x, y, dx, dy⟩ := ahead
  unfold advance? ahead?
  cases Word.add? pointer.x pointer.dx <;> cases Word.add? pointer.y pointer.dy <;>
    simp [eq_comm]

namespace Befunge.Field

variable {field : Field} {pointer ahead : Pointer}

/-- Where some steps lead, unless one of them leads nowhere. -/
def walk? (field : Field) (wrap : Bool) (pointer : Pointer) : Nat → Option Pointer
  | 0 => some pointer
  | steps + 1 => (field.walk? wrap pointer steps).bind (field.step? wrap)

/-- The pointer moved by a multiple of its step over the box, which is taken for a torus. -/
def translated (field : Field) (pointer : Pointer) (steps : Int) : Pointer :=
  { pointer with
    x := Int64.ofInt ((pointer.x.toInt + steps * pointer.dx.toInt) % (max 1 field.widest : Nat))
    y := Int64.ofInt ((pointer.y.toInt + steps * pointer.dy.toInt) % (field.height : Nat)) }

theorem wrapAround_eq_translated (field : Field) (pointer : Pointer) :
    field.wrapAround pointer = field.translated pointer 1 := by
  simp only [wrapAround, around, translated, Int.one_mul, Nat.max_comm]

/-- No step that ends within the box is changed by going around it. -/
theorem wrapAround_of_inBox (stepped : pointer.advance? = some ahead) (inBox : field.InBox ahead) :
    field.wrapAround pointer = ahead := by
  obtain ⟨x, y, dx, dy⟩ := Pointer.advance?_eq_some_iff.1 stepped
  rw [wrapAround_eq_translated]
  simp only [translated, Int.one_mul]
  rw [← x, ← y, Int.emod_eq_of_lt inBox.left inBox.right, Int.emod_eq_of_lt inBox.top inBox.bottom,
    Int64.ofInt_toInt, Int64.ofInt_toInt, ← dx, ← dy]

/-- A step on a field that wraps leads around the box, also where it need not. -/
theorem step?_of_wrap (rows : 0 < field.height) (pointer : Pointer) :
    field.step? true pointer = some (field.wrapAround pointer) := by
  unfold step?
  split
  · rename_i next direct
    obtain ⟨stepped, there⟩ := Option.filter_eq_some_iff.1 direct
    rw [wrapAround_of_inBox stepped (inBox_of_cell? there)]
  · simp [rows]

section Fits

variable (rows : 0 < field.height) (fewRows : field.height ≤ Word.greatest)
  (narrow : field.widest ≤ Word.greatest)

include rows fewRows narrow

theorem toInt_translated (pointer : Pointer) (steps : Int) :
    (field.translated pointer steps).x.toInt =
        (pointer.x.toInt + steps * pointer.dx.toInt) % (max 1 field.widest : Nat) ∧
      (field.translated pointer steps).y.toInt =
        (pointer.y.toInt + steps * pointer.dy.toInt) % (field.height : Nat) := by
  have one : (1 : Int) ≤ Word.greatest := by decide
  exact ⟨toInt_ofInt_emod _ (by omega) (by omega), toInt_ofInt_emod _ rows fewRows⟩

/-- Translations one after the other add up. -/
theorem translated_translated (pointer : Pointer) (first second : Int) :
    field.translated (field.translated pointer first) second =
      field.translated pointer (first + second) := by
  obtain ⟨x, y⟩ := toInt_translated rows fewRows narrow pointer first
  have added (position delta : Int) :
      position + first * delta + second * delta = position + (first + second) * delta := by
    rw [Int.add_mul, Int.add_assoc]
  unfold translated at x y ⊢
  simp only [x, y, Int.emod_add_emod, added]

omit rows fewRows narrow in
theorem translated_zero (inBox : field.InBox pointer) : field.translated pointer 0 = pointer := by
  simp only [translated, Int.zero_mul, Int.add_zero, Int64.ofInt_toInt,
    Int.emod_eq_of_lt inBox.left inBox.right, Int.emod_eq_of_lt inBox.top inBox.bottom]

/-- A walk over the box is a translation by as many steps. -/
theorem walk?_of_wrap (inBox : field.InBox pointer) (steps : Nat) :
    field.walk? true pointer steps = some (field.translated pointer steps) := by
  induction steps with
  | zero => exact congrArg some (translated_zero inBox).symm
  | succ steps inductionHypothesis =>
      rw [walk?, inductionHypothesis, Option.bind_some, step?_of_wrap rows, wrapAround_eq_translated,
        translated_translated rows fewRows narrow, Int.natCast_succ]

end Fits

/-- A step on a field that wraps adds the step to the place, in columns modulo the widest row and in rows
modulo their number, wherever the pointer stands. On a field that is no larger than one in memory can
be, the remainders are words. The direct way to a cell and the way around the box never differ. -/
theorem step_translates_torus (field : Field) (rows : 0 < field.height) (pointer : Pointer) :
    let width := max 1 field.widest
    let next : Pointer :=
      { x := Int64.ofInt ((pointer.x.toInt + pointer.dx.toInt) % (width : Nat))
        y := Int64.ofInt ((pointer.y.toInt + pointer.dy.toInt) % (field.height : Nat))
        dx := pointer.dx
        dy := pointer.dy }
    field.step? true pointer = some next ∧
      (width ≤ Word.greatest → field.height ≤ Word.greatest →
        next.x.toInt = (pointer.x.toInt + pointer.dx.toInt) % (width : Nat) ∧
        next.y.toInt = (pointer.y.toInt + pointer.dy.toInt) % (field.height : Nat)) ∧
      ∀ ahead, pointer.advance? = some ahead → (field.cell? ahead.x ahead.y).isSome →
        field.wrapAround pointer = ahead := by
  intro width next
  have translated : field.translated pointer 1 = next := by
    simp only [Field.translated, Int.one_mul, next, width]
  refine ⟨?_, ?_, ?_⟩
  · rw [step?_of_wrap rows, wrapAround_eq_translated, translated]
  · intro narrow fewRows
    have values := toInt_translated rows fewRows (by omega) pointer 1
    rwa [translated, Int.one_mul, Int.one_mul] at values
  · intro ahead stepped there
    exact wrapAround_of_inBox stepped (inBox_of_cell? there)

/-- The longest step to the right and the longest step up, on a row of eight cells and one of two. -/
theorem longest_step_translates_torus :
    let field : Field := .ofSource "@.......\n.."
    let pointer : Pointer := ⟨1, 1, 9223372036854775807, -9223372036854775808⟩
    0 < field.height ∧ max 1 field.widest ≤ Word.greatest ∧ field.height ≤ Word.greatest ∧
      ∃ next, field.step? true pointer = some next ∧ next.x.toInt = 0 ∧ next.y.toInt = 1 := by
  intro field pointer
  have rows : 0 < field.height := by decide
  have narrow : max 1 field.widest ≤ Word.greatest := by decide
  have fewRows : field.height ≤ Word.greatest := by decide
  obtain ⟨stepped, values, _⟩ := step_translates_torus field rows pointer
  obtain ⟨x, y⟩ := values narrow fewRows
  exact ⟨rows, narrow, fewRows, _, stepped, x.trans (by decide), y.trans (by decide)⟩

end Befunge.Field

end Esoterica
