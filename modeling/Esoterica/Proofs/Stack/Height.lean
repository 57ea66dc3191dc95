import Esoterica.Proofs.Machine.Underflow

/-!
How high a stack is. What is popped and put back is there even if it was not before, so that a short
stack is filled up by it.
-/

namespace Esoterica.Stack

variable {stack : Stack} {size : Nat}

/-- The stack over as many zeros as it takes to have this many values. -/
def filledTo (stack : Stack) (size : Nat) : Stack :=
  ofList (stack.values ++ List.replicate (size - stack.height) 0)

theorem eq_of_values {first second : Stack} (same : first.values = second.values) :
    first = second := by
  obtain ⟨_, _, rfl⟩ := first
  obtain ⟨_, _, rfl⟩ := second
  cases same
  rfl

theorem height_filledTo (stack : Stack) (size : Nat) :
    (stack.filledTo size).height = max size stack.height := by
  have height := stack.heightEq
  simp only [filledTo, ofList, List.length_append, List.length_replicate]
  omega

theorem filledTo_eq_self_iff : stack.filledTo size = stack ↔ size ≤ stack.height := by
  constructor
  · intro same
    have height := stack.height_filledTo size
    rw [same] at height
    omega
  · intro enough
    apply eq_of_values
    simp only [filledTo, ofList, Nat.sub_eq_zero_of_le enough, List.replicate_zero, List.append_nil]

theorem height_pop (stack : Stack) : stack.pop.2.height = stack.height - 1 := by
  obtain ⟨_ | ⟨value, rest⟩, _, rfl⟩ := stack <;> rfl

theorem height_pop_pop (stack : Stack) : stack.pop.2.pop.2.height = stack.height - 2 := by
  rw [height_pop, height_pop]
  rfl

/-- A value that is put back after it was popped is there even if it was not before. -/
theorem push_pop_filledTo (fits : stack.height ≤ limit) (low : size < limit) :
    (stack.pop.2.filledTo size).push stack.pop.1 = ⟨stack.filledTo (size + 1), none⟩ := by
  have room : (stack.pop.2.filledTo size).height < limit := by
    rw [height_filledTo, height_pop]
    omega
  rw [push, if_pos room]
  congr 1
  apply eq_of_values
  obtain ⟨_ | ⟨value, rest⟩, _, rfl⟩ := stack
  · rfl
  · simp [pop, filledTo, ofList]

theorem restore_two (fits : stack.height ≤ limit) :
    (stack.pop.2.pop.2.push stack.pop.2.pop.1).andThen (·.push stack.pop.1) =
      ⟨stack.filledTo 2, none⟩ := by
  have fitsBelow : stack.pop.2.height ≤ limit := by
    rw [height_pop]
    omega
  have lower := push_pop_filledTo fitsBelow (show 0 < limit by decide)
  rw [filledTo_eq_self_iff.2 (Nat.zero_le _)] at lower
  rw [Outcome.andThen_of_none _ (congrArg Outcome.fault lower), lower]
  exact push_pop_filledTo fits (show 1 < limit by decide)

end Esoterica.Stack
