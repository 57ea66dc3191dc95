import Mathlib.Data.List.Rotate
import Mathlib.GroupTheory.Perm.Support
import Esoterica.Proofs.Stack.Height
import Esoterica.Proofs.Word

/-!
Rolls of the topmost values. A single roll moves the top value beneath the others, and it can be undone.
To roll by a number is to make so many single rolls, or to undo so many for a negative number: as many
single rolls as there are values change nothing, so that only a remainder counts.
-/

namespace Esoterica.Stack

/-- A single roll of values from the top down: the top one goes beneath the others. The inverse brings
the lowest one to the top. -/
def singleRoll : Equiv.Perm (List Word) where
  toFun
    | [] => []
    | value :: others => others ++ [value]
  invFun values := values.getLast?.toList ++ values.dropLast
  left_inv values := by
    cases values with
    | nil => rfl
    | cons value others => simp
  right_inv values := by
    rcases List.eq_nil_or_concat values with empty | ⟨others, value, last⟩
    · subst empty
      rfl
    · subst last
      simp

/-- The stack has this many values, and the number is positive. -/
def HasDepth (stack : Stack) (depth : Word) : Prop :=
  1 ≤ depth.toInt ∧ depth.toInt ≤ stack.values.length

/-- The stack after a roll. One that is refused leaves it as it was. -/
def rolled (stack : Stack) (depth count : Word) : Stack :=
  (stack.roll? depth count).getD stack

variable {stack : Stack} {depth : Word}

theorem singleRoll_apply (values : List Word) : singleRoll values = values.rotate 1 := by
  cases values with
  | nil => rfl
  | cons value others =>
      rw [List.rotate_cons_succ, List.rotate_zero]
      rfl

theorem singleRoll_pow_apply (count : Nat) (values : List Word) :
    (singleRoll ^ count) values = values.rotate count := by
  induction count generalizing values with
  | zero => rw [pow_zero, Equiv.Perm.one_apply, List.rotate_zero]
  | succ count inductionHypothesis =>
      rw [pow_succ, Equiv.Perm.mul_apply, singleRoll_apply, inductionHypothesis, List.rotate_rotate,
        Nat.add_comm]

/-- Single rolls of as many values go round and come back, so that only what is left of a round counts,
in either direction. -/
theorem singleRoll_zpow_apply (count : Int) {values : List Word} (nonempty : values ≠ []) :
    (singleRoll ^ count) values = values.rotate (count % values.length).toNat := by
  have round : (singleRoll ^ values.length) values = values := by
    rw [singleRoll_pow_apply, List.rotate_length]
  have positive : (values.length : Int) ≠ 0 := by
    simpa using nonempty
  have left : ((count % values.length).toNat : Int) = count % values.length :=
    Int.toNat_of_nonneg (Int.emod_nonneg count positive)
  calc (singleRoll ^ count) values
    _ = (singleRoll ^ (count % values.length + values.length * (count / values.length))) values := by
        rw [Int.emod_add_mul_ediv]
    _ = (singleRoll ^ (count % values.length))
          (((singleRoll ^ values.length) ^ (count / values.length)) values) := by
        rw [zpow_add, zpow_mul, zpow_natCast, Equiv.Perm.mul_apply]
    _ = (singleRoll ^ (count % values.length)) values := by
        rw [Equiv.Perm.zpow_apply_eq_self_of_apply_eq_self round]
    _ = values.rotate (count % values.length).toNat := by
        rw [← left, zpow_natCast, singleRoll_pow_apply, left]

theorem HasDepth.length_take (deep : stack.HasDepth depth) :
    (stack.values.take depth.toInt.toNat).length = depth.toInt.toNat := by
  have enough := deep.2
  rw [List.length_take]
  omega

theorem HasDepth.take_ne_nil (deep : stack.HasDepth depth) :
    stack.values.take depth.toInt.toNat ≠ [] := by
  have positive := deep.1
  apply List.ne_nil_of_length_pos
  rw [deep.length_take]
  omega

theorem HasDepth.roll? (deep : stack.HasDepth depth) (count : Word) :
    stack.roll? depth count =
      some (ofList ((singleRoll ^ count.toInt) (stack.values.take depth.toInt.toNat) ++
        stack.values.drop depth.toInt.toNat)) := by
  have allowed : 0 < depth.toInt ∧ depth.toInt ≤ stack.height := by
    rw [stack.heightEq]
    exact deep
  have size : (depth.toInt.toNat : Int) = depth.toInt := by omega
  have least := Int.emod_nonneg count.toInt (show depth.toInt ≠ 0 by omega)
  have below := Int.emod_lt_of_pos count.toInt allowed.1
  rw [Stack.roll?, if_pos allowed, singleRoll_zpow_apply _ deep.take_ne_nil, deep.length_take, size,
    List.rotate_eq_drop_append_take]
  rw [deep.length_take]
  omega

theorem roll?_of_not_hasDepth (shallow : ¬ stack.HasDepth depth) (count : Word) :
    stack.roll? depth count = none := by
  rw [Stack.roll?, stack.heightEq]
  exact if_neg shallow

theorem HasDepth.values_rolled (deep : stack.HasDepth depth) (count : Word) :
    (stack.rolled depth count).values =
      (singleRoll ^ count.toInt) (stack.values.take depth.toInt.toNat) ++
        stack.values.drop depth.toInt.toNat := by
  rw [rolled, deep.roll?]
  rfl

theorem rolled_of_not_hasDepth (shallow : ¬ stack.HasDepth depth) (count : Word) :
    stack.rolled depth count = stack := by
  rw [rolled, roll?_of_not_hasDepth shallow]
  rfl

theorem HasDepth.length_turned (deep : stack.HasDepth depth) (count : Word) :
    ((singleRoll ^ count.toInt) (stack.values.take depth.toInt.toNat)).length = depth.toInt.toNat := by
  rw [singleRoll_zpow_apply _ deep.take_ne_nil, List.length_rotate, deep.length_take]

theorem HasDepth.take_rolled (deep : stack.HasDepth depth) (count : Word) :
    (stack.rolled depth count).values.take depth.toInt.toNat =
      (singleRoll ^ count.toInt) (stack.values.take depth.toInt.toNat) := by
  rw [deep.values_rolled, List.take_left' (deep.length_turned count)]

theorem HasDepth.drop_rolled (deep : stack.HasDepth depth) (count : Word) :
    (stack.rolled depth count).values.drop depth.toInt.toNat =
      stack.values.drop depth.toInt.toNat := by
  rw [deep.values_rolled, List.drop_left' (deep.length_turned count)]

theorem height_rolled (stack : Stack) (depth count : Word) :
    (stack.rolled depth count).height = stack.height := by
  by_cases deep : stack.HasDepth depth
  · have enough := deep.2
    rw [heightEq, heightEq, deep.values_rolled, List.length_append, deep.length_turned, List.length_drop]
    omega
  · rw [rolled_of_not_hasDepth deep]

theorem hasDepth_rolled_iff {count : Word} :
    (stack.rolled depth count).HasDepth depth ↔ stack.HasDepth depth := by
  rw [HasDepth, HasDepth, ← heightEq, ← heightEq, height_rolled]

/-- Rolls of one depth add up. -/
theorem rolled_rolled {count more total : Word} (added : count.add? more = some total) :
    (stack.rolled depth count).rolled depth more = stack.rolled depth total := by
  by_cases deep : stack.HasDepth depth
  · apply eq_of_values
    rw [(hasDepth_rolled_iff.2 deep).values_rolled, deep.take_rolled, deep.drop_rolled,
      deep.values_rolled, Word.add?_eq_some_iff.1 added, Int.add_comm, zpow_add, Equiv.Perm.mul_apply]
  · rw [rolled_of_not_hasDepth deep, rolled_of_not_hasDepth deep, rolled_of_not_hasDepth deep]

/-- A roll is made exactly if the stack has the depth. It turns the topmost values by so many single
rolls, or undoes so many for a negative number, and leaves the values beneath as they are; a roll that
is refused leaves the whole stack. Two rolls of one depth are one by the sum of their numbers. -/
theorem roll_repeats_single_rolls (stack : Stack) (depth count : Word) :
    let size := depth.toInt.toNat
    ((stack.roll? depth count).isSome ↔ stack.HasDepth depth) ∧
      (stack.HasDepth depth →
        (stack.rolled depth count).values.drop size = stack.values.drop size ∧
        (stack.rolled depth count).values.take size =
          (singleRoll ^ count.toInt) (stack.values.take size)) ∧
      (¬ stack.HasDepth depth → stack.rolled depth count = stack) ∧
      ∀ more total, count.add? more = some total →
        (stack.rolled depth count).rolled depth more = stack.rolled depth total := by
  refine ⟨⟨?_, ?_⟩, ?_, ?_, ?_⟩
  · intro made
    by_contra shallow
    rw [roll?_of_not_hasDepth shallow] at made
    cases made
  · intro deep
    rw [deep.roll?]
    rfl
  · intro deep
    exact ⟨deep.drop_rolled count, deep.take_rolled count⟩
  · intro shallow
    exact rolled_of_not_hasDepth shallow count
  · intro more total added
    exact rolled_rolled added

example : (ofList [4, 3, 2, 1]).roll? 3 (-1) = some (ofList [2, 4, 3, 1]) := by decide

end Esoterica.Stack
