import Mathlib.Logic.Relation
import Esoterica.Befunge.Machine
import Esoterica.Proofs.Befunge.Shape
import Esoterica.Proofs.Loading
import Esoterica.Proofs.Machine.Conclusion
import Esoterica.Proofs.Machine.Reaches

/-!
The pointer on its walk over the playfield. Whatever an instruction does, it does to the pointer and the
rows in a few kinds of small steps; what these keep is kept in every run.
-/

namespace Esoterica.Befunge

/-- What can happen to the playfield, the pointer and the course of the program within an instruction.
The stack, the input and the output are free. -/
inductive Touches (wrap : Bool) (op : Op) (state next : State Registers) : Prop where
  /-- The pointer stays in its place, where it may turn. -/
  | stays (field : next.registers.field = state.registers.field)
      (x : next.registers.pointer.x = state.registers.pointer.x)
      (y : next.registers.pointer.y = state.registers.pointer.y) (ending : next.ending = state.ending)
  | moves (field : next.registers.field = state.registers.field)
      (stepped : state.registers.field.step? wrap state.registers.pointer =
        some next.registers.pointer) (ending : next.ending = state.ending)
  | leaves (registers : next.registers = state.registers)
      (stuck : state.registers.field.step? wrap state.registers.pointer = none)
      (ending : next.ending = some (.leftGrid state.registers.pointer))
  | writes {x y value : Word}
      (written : state.registers.field.put? x y value = some next.registers.field)
      (pointer : next.registers.pointer = state.registers.pointer)
      (ending : next.ending = state.ending)
  | stops (asked : op = .halt ∨ op = .quit) (registers : next.registers = state.registers)
      (ending : next.ending = some .stopped)

/-- Some of these steps, one after the other. -/
abbrev Leads (wrap : Bool) (op : Op) : State Registers → State Registers → Prop :=
  Relation.ReflTransGen (Touches wrap op)

section Leads

variable {wrap : Bool} {op : Op} {state next : State Registers}

theorem Leads.stay (field : next.registers.field = state.registers.field)
    (x : next.registers.pointer.x = state.registers.pointer.x)
    (y : next.registers.pointer.y = state.registers.pointer.y)
    (ending : next.ending = state.ending) : Leads wrap op state next :=
  .single (.stays field x y ending)

variable (wrap op state)

theorem move_leads : Leads wrap op state (move wrap state) := by
  cases stepped : state.registers.field.step? wrap state.registers.pointer with
  | none =>
      simp only [move, stepped]
      exact .single (.leaves rfl stepped rfl)
  | some next =>
      simp only [move, stepped]
      exact .single (.moves rfl stepped rfl)

theorem moveTimes_leads (count : Nat) : Leads wrap op state (moveTimes wrap state count) := by
  induction count generalizing state with
  | zero => exact .refl
  | succ count inductionHypothesis =>
      simp only [moveTimes]
      split
      · exact move_leads wrap op state
      · exact (move_leads wrap op state).trans (inductionHypothesis _)

theorem moveToSemicolon_leads (count : Nat) :
    Leads wrap op state (moveToSemicolon wrap state count) := by
  induction count generalizing state with
  | zero => exact .refl
  | succ count inductionHypothesis =>
      simp only [moveToSemicolon]
      split
      · exact move_leads wrap op state
      · exact (move_leads wrap op state).trans (inductionHypothesis _)

theorem jump_leads (count : Word) : Leads wrap op state (jump wrap state count) := by
  have turned (state : State Registers) : Leads wrap op state (steer state .reflect) :=
    .stay rfl rfl rfl rfl
  simp only [jump]
  split
  · exact (turned state).trans ((moveTimes_leads wrap op _ _).trans (turned _))
  · exact moveTimes_leads wrap op state _

theorem put_leads (x y value : Word) : Leads wrap op state (put state x y value).state := by
  unfold put
  cases written : state.registers.field.put? x y value with
  | none => exact .refl
  | some field => exact .single (.writes written rfl rfl)

end Leads

/-- Every instruction comes to some of these steps. -/
theorem execute_leads (options : Options) (op : Op) (state : State Registers) :
    Leads options.wrap op state (execute options op state).state := by
  have popped (state : State Registers) : Leads options.wrap op state state.pop.2 :=
    .stay rfl rfl rfl rfl
  cases op with
  | bridge => exact move_leads _ _ state
  | put =>
      exact (popped _).trans ((popped _).trans ((popped _).trans (put_leads _ _ _ _ _ _)))
  | jumpForward => exact (popped _).trans (jump_leads _ _ _ _)
  | skipComment => exact moveToSemicolon_leads _ _ state _
  | halt => exact .single (.stops (.inl rfl) rfl rfl)
  | quit => exact .single (.stops (.inr rfl) rfl rfl)
  | compare =>
      simp only [execute]
      split
      · exact .stay rfl rfl rfl rfl
      · split <;> exact .stay rfl rfl rfl rfl
  | fetch =>
      have moved := move_leads options.wrap .fetch state
      simp only [execute]
      split
      · exact moved
      · exact moved.trans (Leads.stay rfl rfl rfl rfl)
  | store =>
      have moved := (popped state).trans (move_leads options.wrap .store state.pop.2)
      simp only [execute]
      split
      · exact moved
      · exact moved.trans (put_leads _ _ _ _ _ _)
  | _ => exact .stay rfl rfl rfl rfl

/-- A cycle with an instruction in it, also one that fails. -/
theorem step_leads {options : Options} {op : Op} {state : State Registers} (field : Field)
    (dice : Dice) (decoded : decode options state = some op) :
    Leads options.wrap op state ((machine options field dice).step state).state := by
  have executed := execute_leads options op state
  unfold Machine.step
  rw [show (machine options field dice).decode state = some op from decoded]
  dsimp only
  split
  · exact executed.trans (move_leads _ _ _)
  · exact executed

section Shape

variable {wrap : Bool} {op : Op} {state next : State Registers}

theorem Touches.widened (touched : Touches wrap op state next) :
    state.registers.field.Widened next.registers.field := by
  cases touched with
  | stays field | moves field => exact field ▸ .refl _
  | leaves registers | stops _ registers => exact registers ▸ .refl _
  | writes written => exact Field.widened_of_put? written

theorem Leads.widened (leads : Leads wrap op state next) :
    state.registers.field.Widened next.registers.field := by
  induction leads with
  | refl => exact .refl _
  | tail _ touched inductionHypothesis => exact inductionHypothesis.trans touched.widened

/-- Without a way around, the pointer goes from cell to cell. -/
theorem Leads.onCell (leads : Leads false op state next)
    (onCell : (state.registers.field.cell? state.registers.pointer.x
      state.registers.pointer.y).isSome) :
    (next.registers.field.cell? next.registers.pointer.x next.registers.pointer.y).isSome := by
  induction leads with
  | refl => exact onCell
  | tail _ touched inductionHypothesis =>
      cases touched with
      | stays field x y => rwa [field, x, y]
      | moves field stepped => exact field ▸ (Field.step?_straight_iff.1 stepped).2
      | leaves registers | stops _ registers => rwa [registers]
      | writes written pointer =>
          rw [pointer]
          exact (Field.widened_of_put? written).cell?_isSome inductionHypothesis

/-- The pointer stands in the box around rows that have grown from those of another field, and the
program has not left it. -/
structure Settled (field : Field) (state : State Registers) : Prop where
  widened : field.Widened state.registers.field
  inBox : state.registers.field.InBox state.registers.pointer
  ending : state.ending = none ∨ state.ending = some .stopped

section Settled

variable {field : Field} (rows : 0 < field.height) (fewRows : field.height ≤ Word.greatest)
  (narrow : field.widest ≤ Word.greatest)

include rows fewRows narrow

/-- On a field that wraps, the pointer stays in the box, and only an instruction ends the program. -/
theorem Settled.touched (settled : Settled field state) (touched : Touches true op state next) :
    Settled field next := by
  have widened := settled.widened.trans touched.widened
  have someRow : 0 < state.registers.field.height := settled.widened.height ▸ rows
  cases touched with
  | stays field x y ending =>
      refine ⟨widened, ?_, ending ▸ settled.ending⟩
      obtain ⟨left, right, top, bottom⟩ := settled.inBox
      exact ⟨x ▸ left, by rwa [x, field], y ▸ top, by rwa [y, field]⟩
  | moves same stepped ending =>
      refine ⟨widened, ?_, ending ▸ settled.ending⟩
      rw [same]
      exact Field.inBox_of_step? someRow (settled.widened.height ▸ fewRows)
        (settled.widened.narrow narrow) stepped
  | leaves _ stuck => simp [Option.isSome_iff_ne_none.1 (Field.step?_isSome someRow _)] at stuck
  | writes written pointer ending =>
      exact ⟨widened, pointer ▸ (Field.widened_of_put? written).inBox settled.inBox,
        ending ▸ settled.ending⟩
  | stops _ registers ending => exact ⟨widened, registers ▸ settled.inBox, .inr ending⟩

theorem Settled.leads (settled : Settled field state) (leads : Leads true op state next) :
    Settled field next := by
  induction leads with
  | refl => exact settled
  | tail _ touched inductionHypothesis => exact inductionHypothesis.touched rows fewRows narrow touched

/-- Only the instructions for it stop a program on a field that wraps. -/
theorem Settled.stops (settled : Settled field state) (leads : Leads true op state next)
    (running : state.ending = none) : next.ending = none ∨ op = .halt ∨ op = .quit := by
  induction leads with
  | refl => exact .inl running
  | @tail middle next leads touched inductionHypothesis =>
      have rest := settled.leads rows fewRows narrow leads
      cases touched with
      | stays _ _ _ ending | moves _ _ ending | writes _ _ ending => rwa [ending]
      | leaves _ stuck =>
          have someRow : 0 < middle.registers.field.height := rest.widened.height ▸ rows
          simp [Option.isSome_iff_ne_none.1 (Field.step?_isSome someRow _)] at stuck
      | stops asked => exact .inr asked

end Settled

end Shape

theorem load_eq_ok_iff {options : Options} {source : String} {field : Field} :
    load options source = .ok field ↔ options.Valid ∧ Field.ofSource source = field := by
  rw [load, bind_eq_ok_iff]
  simp only [Options.validate_eq_ok_iff, pure, Except.pure, Except.ok.injEq, exists_const]

section Runs

variable {options : Options} {field : Field} {dice : Dice} {state : State Registers}

/-- Rows are never lost or shortened, in a cycle that fails as in any other. -/
theorem step_widened (state : State Registers) :
    state.registers.field.Widened ((machine options field dice).step state).state.registers.field := by
  cases decoded : decode options state with
  | some op => exact (step_leads field dice decoded).widened
  | none =>
      have ranOff : (machine options field dice).step state = ⟨state.halt .ranOff, none⟩ := by
        simp only [Machine.step, show (machine options field dice).decode state = none from decoded]
      exact ranOff ▸ .refl _

theorem widened_of_visits {start : State Registers} {cycles : Nat}
    (visited : (machine options field dice).Visits start cycles state) :
    start.registers.field.Widened state.registers.field :=
  visited.invariant (fun state => start.registers.field.Widened state.registers.field)
    (.refl _) fun state _ widened => widened.trans (step_widened state)

theorem cell?_of_decode {op : Op} (straight : options.wrap = false)
    (decoded : decode options state = some op) :
    (state.registers.field.cell? state.registers.pointer.x state.registers.pointer.y).isSome := by
  obtain ⟨cell, seen, _⟩ := Option.map_eq_some_iff.1 decoded
  rw [straight, Field.look?_straight] at seen
  exact Option.isSome_iff_exists.2 ⟨cell, seen⟩

/-- Without a way around, a cycle that does not end the program leaves the pointer on a cell. -/
theorem onCell_of_step (straight : options.wrap = false)
    (running : ((machine options field dice).step state).state.ending = none) :
    let registers := ((machine options field dice).step state).state.registers
    (registers.field.cell? registers.pointer.x registers.pointer.y).isSome := by
  cases decoded : decode options state with
  | none =>
      simp [Machine.step, show (machine options field dice).decode state = none from decoded,
        State.halt] at running
  | some op =>
      have leads := step_leads field dice decoded
      rw [straight] at leads
      exact leads.onCell (cell?_of_decode straight decoded)

section Wrapping

variable (wraps : options.wrap = true) (rows : 0 < field.height)
  (fewRows : field.height ≤ Word.greatest) (narrow : field.widest ≤ Word.greatest)

include wraps in
theorem Settled.decode_isSome (settled : Settled field state) : (decode options state).isSome := by
  have seen := Field.look?_isSome settled.inBox
  simpa [decode, wraps] using seen

include wraps rows fewRows narrow

variable (dice) in
/-- A cycle on a field that wraps goes on in the box, unless it asks for the end. -/
theorem Settled.step (settled : Settled field state) (running : state.ending = none) :
    let after := ((machine options field dice).step state).state
    Settled field after ∧
      (after.ending = none ∨ decode options state = some .halt ∨ decode options state = some .quit) := by
  obtain ⟨op, decoded⟩ := Option.isSome_iff_exists.1 (settled.decode_isSome wraps)
  have leads := step_leads field dice decoded
  rw [wraps] at leads
  refine ⟨settled.leads rows fewRows narrow leads, ?_⟩
  rcases settled.stops rows fewRows narrow leads running with goesOn | rfl | rfl
  · exact .inl goesOn
  · exact .inr (.inl decoded)
  · exact .inr (.inr decoded)

theorem settled_of_visits {input : String} {cycles : Nat}
    (visited :
      (machine options field dice).Visits ((machine options field dice).initial input) cycles state) :
    Settled field state := by
  refine visited.invariant (Settled field) ⟨.refl _, Field.inBox_corner rows, .inl rfl⟩ ?_
  intro state running settled
  exact (settled.step dice wraps rows fewRows narrow running).1

/-- The last cycle of a program that does not fail asks for the end. -/
theorem stops_of_done {input : String} {cycles : Nat}
    (reached : (machine options field dice).after? cycles ((machine options field dice).initial input) =
      some state) (ended : ((machine options field dice).step state).state.done) :
    decode options state = some .halt ∨ decode options state = some .quit := by
  have settled := settled_of_visits wraps rows fewRows narrow
    (.reached (Machine.reaches_of_after? rfl reached))
  rcases (settled.step dice wraps rows fewRows narrow (Machine.running_of_after? rfl reached)).2 with
    running | asked
  · simp [State.done, running] at ended
  · exact asked

end Wrapping

end Runs

/-- Rows never get lost or shorter, and grow up to the limit at most. Without a way around, the pointer
is on a cell after every cycle that does not end the program. On a field that wraps, which is no larger
than a text in memory can be, the pointer stays in the box around the rows, and a run ends with a fault
or a limit or with an instruction that asks for the end. All this holds with any dice. -/
theorem pointer_stays_on_field (options : Options) (source : String) (field : Field)
    (loaded : load options source = .ok field) (input : String) (dice : Dice) :
    let machine := machine options field dice
    let start := machine.initial input
    (∀ cycles state, machine.Visits start cycles state →
      state.registers.field.height = (Text.lines source.toList).length ∧
      (∀ y, state.registers.field.width y ≤ max (field.width y) 65536) ∧
      ∀ earlier before, machine.Reaches start earlier before → earlier ≤ cycles →
        ∀ y, before.registers.field.width y ≤ state.registers.field.width y) ∧
    (options.wrap = false → ∀ cycles state, machine.Visits start cycles state → 0 < cycles →
      state.ending = none →
        (state.registers.field.cell? state.registers.pointer.x state.registers.pointer.y).isSome) ∧
    (options.wrap = true → 0 < field.height → source.length ≤ Word.greatest →
      (∀ cycles state, machine.Visits start cycles state →
        state.registers.field.InBox state.registers.pointer ∧ (machine.decode state).isSome ∧
          (state.ending = none ∨ state.ending = some .stopped)) ∧
      ∀ (Host : Type) (timeUp : StateM Host Bool) (host : Host),
        let finish := ((machine.runWith timeUp input).run host).run.1
        finish.fault.isSome ∨ ∃ made last, machine.after? made start = some last ∧
          finish.cycles = made + 1 ∧ finish.state = (machine.step last).state ∧
            (machine.decode last = some .halt ∨ machine.decode last = some .quit)) := by
  intro machine start
  obtain ⟨valid, rfl⟩ := load_eq_ok_iff.1 loaded
  refine ⟨fun cycles state visited => ?_, fun straight cycles state visited positive running => ?_,
    fun wraps rows short => ?_⟩
  · have widened := widened_of_visits visited
    refine ⟨widened.height.trans (Field.height_ofSource source), widened.limited, ?_⟩
    intro earlier before reached ordered
    exact (widened_of_visits (visited.drop reached ordered)).keeps
  · obtain ⟨before, _, rfl⟩ := visited.stepped positive
    exact onCell_of_step straight running
  · obtain ⟨height, widest⟩ := Field.ofSource_le source
    have fewRows : ((Field.ofSource source).height : Int) ≤ Word.greatest := by omega
    have narrow : ((Field.ofSource source).widest : Int) ≤ Word.greatest := by omega
    refine ⟨fun cycles state visited => ?_, fun Host timeUp host => ?_⟩
    · have settled := settled_of_visits wraps rows fewRows narrow visited
      exact ⟨settled.inBox, settled.decode_isSome wraps, settled.ending⟩
    · have concludes : machine.Concludes True start ((machine.runWith timeUp input).run host).run.1 :=
        Machine.concludes_runWith (fun _ _ => trivial) valid input host
      generalize ((machine.runWith timeUp input).run host).run.1 = finish at concludes ⊢
      cases concludes with
      | failed | cyclesUsed | timeUsed | outputFull => exact .inl rfl
      | @ended made last proceeds _ _ done =>
          exact .inr ⟨made, last, proceeds.reaches, rfl, rfl,
            stops_of_done wraps rows fewRows narrow proceeds.reaches done⟩

/-- A leap by `9 ^ 16` columns over two rows of different lengths comes down in the box again. -/
theorem pointer_stays_on_field_leaping :
    let options : Options := { wrap := true, dialect := .befunge98 }
    let source := "9:*:*:*:*0x\n@"
    let field : Field := .ofSource source
    let machine := machine options field
    load options source = .ok field ∧ 0 < field.height ∧ source.length ≤ Word.greatest ∧
      ∃ state, machine.after? 11 (machine.initial "") = some state ∧
        state.registers.pointer.dx.toInt = 1853020188851841 ∧
        state.registers.field.InBox state.registers.pointer ∧ (machine.decode state).isSome := by
  intro options source field machine
  have loaded : load options source = .ok field := rfl
  have leapt : (machine.after? 11 (machine.initial "")).map (·.registers.pointer.dx.toInt) =
      some 1853020188851841 := by decide +kernel
  obtain ⟨state, reached, leap⟩ := Option.map_eq_some_iff.1 leapt
  have wrapped := (pointer_stays_on_field options source field loaded "" (.ofSeed none)).2.2 rfl (by decide)
    (by decide)
  obtain ⟨inBox, decoded, _⟩ := wrapped.1 11 state (.reached (Machine.reaches_of_after? rfl reached))
  exact ⟨loaded, by decide, by decide, state, reached, leap, inBox, decoded⟩

end Esoterica.Befunge
