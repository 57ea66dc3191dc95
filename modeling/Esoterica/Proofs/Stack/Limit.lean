import Esoterica.Proofs.Stack.Roll

/-!
The limit of the stack. Of all operations only those that put a value on top and take none can find the
stack full, and they leave it as it was. The others take values before they put any, so that there is
room for what they put, however short or high the stack is.
-/

namespace Esoterica.Stack

/-- An operation on a stack, with its operands. -/
inductive Operation where
  | push (value : Word)
  | pop
  | dup
  | copy (depth : Nat)
  | swap
  | discard
  | slide (count : Nat)
  | roll (depth count : Word)
  | binary (op : BinaryOp) (ignoreZero : Bool)
  | negate
  | clear

/-- What an operation leaves behind, also where it fails. -/
def perform (stack : Stack) : Operation → Outcome Stack
  | .push value => stack.push value
  | .pop => ⟨stack.pop.2, none⟩
  | .dup => stack.dup
  | .copy depth => stack.copy depth
  | .swap => stack.swap
  | .discard => ⟨stack.discard, none⟩
  | .slide count => ⟨stack.slide count, none⟩
  | .roll depth count => ⟨stack.rolled depth count, none⟩
  | .binary op ignoreZero => stack.binary op ignoreZero
  | .negate => stack.negate
  | .clear => ⟨empty, none⟩

/-- The stack after operations in this order. One that fails does not keep the next from being
performed. -/
def after (stack : Stack) (operations : List Operation) : Stack :=
  operations.foldl (fun stack operation => (stack.perform operation).state) stack

/-- The operation puts a value on top and takes none. -/
def Operation.Puts (operation : Operation) : Prop :=
  (∃ value, operation = .push value) ∨ operation = .dup ∨ ∃ depth, operation = .copy depth

/-- The operation divides the second value by a zero on top and minds it. -/
def Operation.DividesByZero (operation : Operation) (stack : Stack) : Prop :=
  ∃ op, operation = .binary op false ∧ op.divides ∧ stack.peek = 0

/-- What can become of an operation on a stack within its limit. -/
inductive Performed (stack : Stack) (operation : Operation) : Outcome Stack → Prop
  | succeeds {later : Stack} (room : operation.Puts → stack.height < limit)
      (proper : ¬ operation.DividesByZero stack) (fits : later.height ≤ limit) :
      Performed stack operation ⟨later, none⟩
  | overflows (puts : operation.Puts) (full : stack.height = limit) :
      Performed stack operation ⟨stack, some (.stackOverflow limit)⟩
  | divides {later : Stack} (byZero : operation.DividesByZero stack) (fits : later.height ≤ limit) :
      Performed stack operation ⟨later, some .divisionByZero⟩

variable {stack : Stack} {operation : Operation}

theorem push_of_full (full : stack.height = limit) (value : Word) :
    stack.push value = ⟨stack, some (.stackOverflow limit)⟩ := by
  rw [push, if_neg]
  omega

theorem exists_push_of_room (room : stack.height < limit) (value : Word) :
    ∃ later, stack.push value = ⟨later, none⟩ ∧ later.height = stack.height + 1 := by
  rw [push, if_pos room]
  exact ⟨_, rfl, rfl⟩

theorem exists_pushTwo_of_room (room : stack.height + 1 < limit) (lower upper : Word) :
    ∃ later, (stack.push lower).andThen (·.push upper) = ⟨later, none⟩ ∧
      later.height = stack.height + 2 := by
  obtain ⟨middle, pushed, height⟩ := exists_push_of_room (show stack.height < limit by omega) lower
  obtain ⟨later, pushedToo, higher⟩ := exists_push_of_room (show middle.height < limit by omega) upper
  refine ⟨later, ?_, by omega⟩
  rw [pushed]
  exact pushedToo

theorem height_slide_le (stack : Stack) (count : Nat) : (stack.slide count).height ≤ stack.height := by
  obtain ⟨_ | ⟨value, rest⟩, _, rfl⟩ := stack
  · exact Nat.le_refl _
  · simp [slide, ofList]

theorem performed_put {value : Word} (puts : operation.Puts) (fits : stack.height ≤ limit) :
    Performed stack operation (stack.push value) := by
  have proper : ¬ operation.DividesByZero stack := by
    rcases puts with ⟨_, rfl⟩ | rfl | ⟨_, rfl⟩ <;> simp [Operation.DividesByZero]
  rcases Nat.lt_or_eq_of_le fits with room | full
  · obtain ⟨later, pushed, height⟩ := exists_push_of_room room value
    rw [pushed]
    exact .succeeds (fun _ => room) proper (by omega)
  · rw [push_of_full full]
    exact .overflows puts full

theorem performed_of_fits {later : Stack} (plain : ¬ operation.Puts ∧ ¬ operation.DividesByZero stack)
    (fits : later.height ≤ limit) : Performed stack operation ⟨later, none⟩ :=
  .succeeds (fun puts => (plain.1 puts).elim) plain.2 fits

/-- An operation that takes a value has room for another. -/
theorem performed_push {below : Stack} {value : Word}
    (plain : ¬ operation.Puts ∧ ¬ operation.DividesByZero stack) (room : below.height < limit) :
    Performed stack operation (below.push value) := by
  obtain ⟨later, pushed, height⟩ := exists_push_of_room room value
  rw [pushed]
  exact performed_of_fits plain (by omega)

/-- An operation that takes two values has room for two others. -/
theorem performed_pushTwo {lower upper : Word}
    (plain : ¬ operation.Puts ∧ ¬ operation.DividesByZero stack) (fits : stack.height ≤ limit) :
    Performed stack operation ((stack.pop.2.pop.2.push lower).andThen (·.push upper)) := by
  have height := stack.height_pop_pop
  have limited : 2 ≤ limit := by decide
  obtain ⟨later, pushed, higher⟩ :=
    exists_pushTwo_of_room (show stack.pop.2.pop.2.height + 1 < limit by omega) lower upper
  rw [pushed]
  exact performed_of_fits plain (by omega)

theorem performed_binary (op : BinaryOp) (ignoreZero : Bool) (fits : stack.height ≤ limit) :
    Performed stack (.binary op ignoreZero) (stack.binary op ignoreZero) := by
  have takes : ¬ (Operation.binary op ignoreZero).Puts := by simp [Operation.Puts]
  have height := stack.height_pop_pop
  have limited : 2 ≤ limit := by decide
  by_cases byZero : op.divides ∧ stack.pop.1 = 0
  · cases ignoreZero with
    | true =>
        simp only [binary, byZero, and_self, if_true]
        exact performed_pushTwo ⟨takes, by simp [Operation.DividesByZero]⟩ fits
    | false =>
        simp only [binary, byZero, and_self, if_true, Bool.false_eq_true, if_false]
        exact .divides ⟨op, rfl, byZero.1, stack.pop_fst.symm.trans byZero.2⟩ (by omega)
  · have proper : ¬ (Operation.binary op ignoreZero).DividesByZero stack := by
      intro divides
      obtain ⟨_, same, divides, zero⟩ := divides
      cases same
      exact byZero ⟨divides, stack.pop_fst.trans zero⟩
    simp only [binary, byZero, if_false]
    exact performed_push ⟨takes, proper⟩ (by omega)

/-- Every operation on a stack within its limit succeeds, overflows or divides by zero. -/
theorem performed_perform (fits : stack.height ≤ limit) (operation : Operation) :
    Performed stack operation (stack.perform operation) := by
  have popped := stack.height_pop
  have limited : 2 ≤ limit := by decide
  cases operation with
  | push value => exact performed_put (.inl ⟨value, rfl⟩) fits
  | dup => exact performed_put (.inr (.inl rfl)) fits
  | copy depth => exact performed_put (.inr (.inr ⟨depth, rfl⟩)) fits
  | swap => exact performed_pushTwo (by simp [Operation.Puts, Operation.DividesByZero]) fits
  | binary op ignoreZero => exact performed_binary op ignoreZero fits
  | negate =>
      exact performed_push (by simp [Operation.Puts, Operation.DividesByZero])
        (show stack.pop.2.height < limit by omega)
  | pop | discard =>
      exact performed_of_fits (by simp [Operation.Puts, Operation.DividesByZero])
        (show stack.pop.2.height ≤ limit by omega)
  | slide count =>
      exact performed_of_fits (by simp [Operation.Puts, Operation.DividesByZero])
        ((stack.height_slide_le count).trans fits)
  | roll depth count =>
      exact performed_of_fits (by simp [Operation.Puts, Operation.DividesByZero])
        ((stack.height_rolled depth count).trans_le fits)
  | clear =>
      exact performed_of_fits (by simp [Operation.Puts, Operation.DividesByZero]) (Nat.zero_le _)

theorem Performed.fits {outcome : Outcome Stack} (performed : Performed stack operation outcome) :
    outcome.state.height ≤ limit := by
  cases performed with
  | succeeds _ _ fits => exact fits
  | overflows _ full => exact full.le
  | divides _ fits => exact fits

theorem height_after_le (fits : stack.height ≤ limit) (operations : List Operation) :
    (stack.after operations).height ≤ limit := by
  induction operations generalizing stack with
  | nil => exact fits
  | cons operation operations inductionHypothesis =>
      exact inductionHypothesis (performed_perform fits operation).fits

theorem Performed.overflows_iff {outcome : Outcome Stack}
    (performed : Performed stack operation outcome) :
    outcome.fault.map Error.kind = some .stackOverflow ↔ operation.Puts ∧ stack.height = limit := by
  cases performed with
  | succeeds room _ _ =>
      constructor
      · intro fails
        cases fails
      · intro overflows
        have lower := room overflows.1
        omega
  | overflows puts full => exact iff_of_true rfl ⟨puts, full⟩
  | divides byZero _ =>
      constructor
      · intro fails
        cases fails
      · intro overflows
        obtain ⟨op, same, _⟩ := byZero
        rw [same] at overflows
        simp [Operation.Puts] at overflows

theorem Performed.divides_iff {outcome : Outcome Stack}
    (performed : Performed stack operation outcome) :
    outcome.fault.map Error.kind = some .divisionByZero ↔ operation.DividesByZero stack := by
  cases performed with
  | succeeds _ proper _ => exact iff_of_false (by simp) proper
  | overflows puts _ =>
      constructor
      · intro fails
        cases fails
      · intro byZero
        obtain ⟨op, same, _⟩ := byZero
        rw [same] at puts
        simp [Operation.Puts] at puts
  | divides byZero _ => exact iff_of_true rfl byZero

theorem Performed.state_of_overflow {outcome : Outcome Stack}
    (performed : Performed stack operation outcome)
    (fails : outcome.fault.map Error.kind = some .stackOverflow) : outcome.state = stack := by
  cases performed with
  | succeeds => cases fails
  | overflows => rfl
  | divides => cases fails

/-- Whatever has been done to a stack that was empty, it is within its limit. The next operation
overflows exactly if it only puts a value on a stack at its limit, and then the stack stays as it was;
it fails for a division by zero exactly if it divides, a zero is on top or nothing, and that is not to
be ignored. -/
theorem overflow_leaves_full_stack (operations : List Operation) (operation : Operation) :
    let stack := empty.after operations
    let outcome := stack.perform operation
    stack.values.length ≤ limit ∧
      (outcome.fault.map Error.kind = some .stackOverflow ↔
        operation.Puts ∧ stack.values.length = limit) ∧
      (outcome.fault.map Error.kind = some .stackOverflow → outcome.state = stack) ∧
      (outcome.fault.map Error.kind = some .divisionByZero ↔ operation.DividesByZero stack) := by
  intro stack outcome
  have fits : stack.height ≤ limit := height_after_le (Nat.zero_le _) operations
  have performed : Performed stack operation outcome := performed_perform fits operation
  rw [← stack.heightEq]
  exact ⟨fits, performed.overflows_iff, performed.state_of_overflow, performed.divides_iff⟩

theorem height_after_pushes (value : Word) (count : Nat) :
    (empty.after (List.replicate count (.push value))).height = min count limit := by
  induction count with
  | zero => rfl
  | succ count inductionHypothesis =>
      let stack := empty.after (List.replicate count (.push value))
      have height : stack.height = min count limit := inductionHypothesis
      rw [List.replicate_succ', after, List.foldl_append]
      change (stack.push value).state.height = _
      by_cases room : count < limit
      · obtain ⟨later, pushed, higher⟩ :=
          exists_push_of_room (show stack.height < limit by omega) value
        rw [pushed, higher, height]
        omega
      · rw [push_of_full (show stack.height = limit by omega), height]
        omega

/-- There is a stack at its limit, on which a value can be put no more. -/
theorem some_stack_overflows :
    ∃ operations : List Operation,
      let stack := empty.after operations
      (stack.perform .dup).fault.map Error.kind = some .stackOverflow ∧
        (stack.perform .dup).state = stack := by
  have full : ∃ operations : List Operation, (empty.after operations).values.length = limit := by
    refine ⟨List.replicate limit (.push 7), ?_⟩
    rw [← heightEq, height_after_pushes, Nat.min_self]
  obtain ⟨operations, full⟩ := full
  obtain ⟨_, overflows, unchanged, _⟩ := overflow_leaves_full_stack operations .dup
  have fails := overflows.2 ⟨.inr (.inl rfl), full⟩
  exact ⟨operations, fails, unchanged fails⟩

end Esoterica.Stack
