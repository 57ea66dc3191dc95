import Esoterica.Proofs.Machine.Lockstep
import Esoterica.Proofs.Piet.Cycle

/-!
The course of a program: where the pointer has been and what it is doing there. Recording the course
has no influence on it.
-/

namespace Esoterica.Piet

/-- The codels to which the pointer moves in the first cycles of a program. -/
def moves (options : Options) (codels : Codels) (input : String) (cycles : Nat) : List Codel :=
  ((machine options codels).trail cycles ((machine options codels).initial input)).filterMap
    Op.target?

/-- The pointer has come to its place by some moves, all of them onto open codels. -/
structure Course (options : Options) (codels : Codels) (moves : List Codel) (registers : Registers) :
    Prop where
  position : registers.position = (⟨0, 0⟩ :: moves).getLast (List.cons_ne_nil _ _)
  opened : ∀ codel ∈ moves, codels.isOpen codel = true
  path : options.trace = true → registers.path.toList = ⟨0, 0⟩ :: moves

/-- What the registers hold after some moves. -/
structure Sound (options : Options) (codels : Codels) (moves : List Codel) (registers : Registers) :
    Prop where
  placed :
    (moves = [] ∧ registers.position = ⟨0, 0⟩ ∧
      (codels.get? ⟨0, 0⟩ = none ∨ codels.get? ⟨0, 0⟩ = some .black)) ∨
    ∃ color, codels.get? registers.position = some color ∧ color ≠ .black
  onWhite : codels.get? registers.position = some .white →
    ∃ walls, walls ≤ 3 ∧ registers.phase = .traversingWhite walls
  onColor : ∀ hue lightness, codels.get? registers.position = some (.chromatic hue lightness) →
    (registers.phase = .seekingExit ∨
      ∃ attempts, 1 ≤ attempts ∧ attempts ≤ 7 ∧ registers.phase = .blockedRetry attempts) ∧
    registers.whiteSeen = []
  path : options.trace = true →
    registers.path.toList = ⟨0, 0⟩ :: moves ∧ registers.path.back? = some registers.position

section Course

variable {options : Options} {codels : Codels} {state next : State Registers} {op : Option Op}
  {target : Codel} {taken : List Codel}

theorem Course.move (course : Course options codels taken state.registers)
    (opened : codels.isOpen target = true) :
    Course options codels (taken ++ [target]) (enter options codels target state).registers := by
  obtain ⟨position, path⟩ := placed_enter options codels target state
  refine ⟨by simp [position], ?_, ?_⟩
  · intro codel member
    rcases List.mem_append.1 member with old | new
    · exact course.opened codel old
    · rw [List.mem_singleton.1 new]
      exact opened
  · intro traced
    simp [path, extended, traced, course.path traced]

theorem Course.stay {registers : Registers} (course : Course options codels taken state.registers)
    (position : registers.position = state.registers.position)
    (path : registers.path = state.registers.path) : Course options codels taken registers :=
  ⟨position.trans course.position, course.opened, fun traced => path ▸ course.path traced⟩

/-- A cycle adds its move to the course, if it makes one. -/
theorem Course.cycle (course : Course options codels taken state.registers)
    (cycle : Cycle options codels state op ⟨next, none⟩) :
    Course options codels (taken ++ (op.bind Op.target?).toList) next.registers := by
  have blocked : (some Op.blocked).bind Op.target? = none := rfl
  cases cycle with
  | ranOff => simpa using course
  | slide _ _ opened => exact course.move opened
  | turn _ _ more =>
      rw [meetWall_of_lt more, blocked, Option.toList_none, List.append_nil]
      exact course.stay rfl rfl
  | walledIn =>
      rw [blocked, Option.toList_none, List.append_nil]
      exact course
  | @leave _ _ op target left _ _ _ opened moves performed =>
      have placed := placedAs_of_execute moves performed
      rw [Option.bind_some, moves]
      exact Course.move (course.stay (placed ▸ rfl) (placed ▸ rfl)) opened
  | retry _ _ _ more =>
      rw [retry_of_lt more, blocked, Option.toList_none, List.append_nil]
      exact course.stay rfl rfl
  | noExit =>
      rw [blocked, Option.toList_none, List.append_nil]
      exact course

theorem moves_succ {input : String} {cycles : Nat}
    (reached : (machine options codels).after? cycles ((machine options codels).initial input) =
      some state) :
    moves options codels input (cycles + 1) =
      moves options codels input cycles ++ ((decode codels state).bind Op.target?).toList := by
  rw [moves, Machine.trail_succ reached, List.filterMap_append]
  change _ ++ (decode codels state).toList.filterMap Op.target? = _
  cases decode codels state with
  | none => rfl
  | some op => cases moves : op.target? <;> simp [moves, Piet.moves]

theorem course_of_reaches {input : String} {cycles : Nat}
    (reached : (machine options codels).Reaches ((machine options codels).initial input) cycles state) :
    Course options codels (moves options codels input cycles) state.registers := by
  induction reached with
  | start =>
      have none : moves options codels input 0 = [] := rfl
      rw [none]
      exact ⟨rfl, by simp, fun traced => by simp [Machine.initial, machine, start, traced]⟩
  | cycle reached running stepped inductionHypothesis =>
      have cycle := cycle_of_reaches reached running
      rw [stepped] at cycle
      rw [moves_succ (reached.after? running)]
      exact inductionHypothesis.cycle cycle

/-- The phase and the course together make the registers sound. -/
theorem Course.sound {registers : Registers} (course : Course options codels taken registers)
    (poised : Poised codels registers) : Sound options codels taken registers where
  placed := by
    cases opened : codels.isOpen registers.position with
    | true => exact .inr (Codels.isOpen_iff.1 opened)
    | false =>
        cases taken with
        | nil =>
            have position : registers.position = ⟨0, 0⟩ := course.position
            exact .inl ⟨rfl, position, Codels.isOpen_eq_false_iff.1 (position ▸ opened)⟩
        | cons first rest =>
            have last : registers.position ∈ first :: rest := by
              rw [course.position, List.getLast_cons (List.cons_ne_nil _ _)]
              exact List.getLast_mem _
            simp [course.opened _ last] at opened
  onWhite := by
    intro white
    cases poised with
    | astray closed => simp [Codels.isOpen, white] at closed
    | sliding sliding => exact ⟨_, Nat.le_of_lt_succ sliding.few, sliding.phase⟩
    | onBlock onBlock =>
        obtain ⟨hue, lightness, colored⟩ := onBlock.chromatic
        simp [white] at colored
  onColor := by
    intro hue lightness colored
    cases poised with
    | astray closed => simp [Codels.isOpen, colored] at closed
    | sliding sliding => simp [sliding.white] at colored
    | @onBlock attempts onBlock =>
        refine ⟨?_, onBlock.clear⟩
        cases attempts with
        | zero => exact .inl onBlock.phase
        | succ attempts =>
            exact .inr ⟨attempts + 1, by omega, Nat.le_of_lt_succ onBlock.few, onBlock.phase⟩
  path := by
    intro traced
    have path := course.path traced
    refine ⟨path, ?_⟩
    rw [← Array.getLast?_toList, path, List.getLast?_eq_some_getLast (List.cons_ne_nil _ _),
      course.position]

end Course

/-- A state without the record of its path. -/
def untraced (state : State Registers) : State Registers :=
  state.update fun registers => { registers with path := #[] }

section Untraced

variable {codels : Codels}

theorem apply_untraced (command : Command) (blockSize : Word) (state : State Registers) :
    apply command blockSize (untraced state) =
      (apply command blockSize state).within untraced := by
  -- What a command leaves has the place of the state before it, and of the place only the path counts.
  have placed := apply_placedAs state state command blockSize
  rw [placedAs_self] at placed
  calc apply command blockSize (untraced state)
      = apply command blockSize (placedAs (untraced state) state) := rfl
    _ = (apply command blockSize state).within (placedAs (untraced state)) := apply_placedAs ..
    _ = ((apply command blockSize state).within (placedAs state)).within untraced := rfl
    _ = (apply command blockSize state).within untraced := by rw [← placed]

theorem retry_untraced (attempts : Nat) (state : State Registers) :
    retry (untraced state) attempts = untraced (retry state attempts) := by
  by_cases more : attempts < retryLimit
  · rw [retry_of_lt more, retry_of_lt more]
    rfl
  · rw [retry, retry, if_pos (by omega), if_pos (by omega)]
    rfl

theorem meetWall_untraced (walls : Nat) (state : State Registers) :
    meetWall (untraced state) walls = untraced (meetWall state walls) := by
  by_cases more : walls < wallLimit
  · rw [meetWall_of_lt more, meetWall_of_lt more]
    rfl
  · rw [meetWall, meetWall, if_pos (by omega), if_pos (by omega)]
    rfl

theorem execute_untraced (op : Op) (state : State Registers) :
    execute op (untraced state) = (execute op state).within untraced := by
  cases op with
  | step target command blockSize =>
      cases command with
      | none => rfl
      | some command => exact apply_untraced command (Int64.ofNat blockSize) state
  | slide => rfl
  | blocked =>
      have same : (untraced state).registers.phase = state.registers.phase := rfl
      simp only [execute, same]
      cases state.registers.phase with
      | seekingExit => simp only [retry_untraced, Outcome.within]
      | blockedRetry attempts => simp only [retry_untraced, Outcome.within]
      | traversingWhite walls => simp only [meetWall_untraced, Outcome.within]

theorem enter_untraced (options other : Options) (target : Codel) (state : State Registers) :
    untraced (enter options codels target state) =
      untraced (enter other codels target (untraced state)) := by
  by_cases white : codels.get? target = some .white
  · by_cases seen : (target, state.registers.dp) ∈ state.registers.whiteSeen
    · have seenToo : (target, (untraced state).registers.dp) ∈ (untraced state).registers.whiteSeen :=
        seen
      rw [enter_of_seen white seen, enter_of_seen white seenToo]
      rfl
    · have freshToo :
          (target, (untraced state).registers.dp) ∉ (untraced state).registers.whiteSeen := seen
      rw [enter_of_white white seen, enter_of_white white freshToo]
      rfl
  · rw [enter_of_colored white, enter_of_colored white]
    rfl

theorem advance_untraced (options other : Options) (op : Op) (state : State Registers) :
    untraced (advance options codels op state) =
      untraced (advance other codels op (untraced state)) := by
  cases op with
  | step target | slide target => exact enter_untraced options other target state
  | blocked => rfl

/-- The record of the path has no influence on what else a cycle does. -/
theorem step_untraced (options other : Options) (state : State Registers) :
    ((machine options codels).step state).within untraced =
      ((machine other codels).step (untraced state)).within untraced := by
  have same : decode codels (untraced state) = decode codels state := rfl
  cases decoded : decode codels state with
  | none =>
      simp only [Machine.step, machine, same, decoded]
      rfl
  | some op =>
      have performedAlike := execute_untraced op state
      rcases performed : execute op state with ⟨left, _ | fault⟩
      · rw [performed] at performedAlike
        have endedAlike : (untraced left).done = left.done := rfl
        cases ended : left.done with
        | true =>
            simp [Machine.step, machine, same, decoded, performed, performedAlike, Outcome.within,
              endedAlike, ended]
            rfl
        | false =>
            simp [Machine.step, machine, same, decoded, performed, performedAlike, Outcome.within,
              endedAlike, ended, advance_untraced options other op left]
      · rw [performed] at performedAlike
        simp [Machine.step, machine, same, decoded, performed, performedAlike, Outcome.within]
        rfl

theorem step_alike (options other : Options) (codels : Codels) {state partner : State Registers}
    (alike : untraced state = untraced partner) :
    ((machine options codels).step state).fault = ((machine other codels).step partner).fault ∧
      untraced ((machine options codels).step state).state =
        untraced ((machine other codels).step partner).state := by
  have stepped : ((machine options codels).step state).within untraced =
      ((machine other codels).step partner).within untraced := by
    rw [step_untraced options other state, alike, ← step_untraced other other partner]
  have sameFault := congrArg Outcome.fault stepped
  have sameState := congrArg Outcome.state stepped
  exact ⟨sameFault, sameState⟩

/-- Machines that differ in whether they record the path go in lockstep. -/
theorem lockstep_trace (options : Options) (codels : Codels) (first second : Bool) :
    (machine { options with trace := first } codels).Lockstep
      (machine { options with trace := second } codels)
      fun state partner => untraced state = untraced partner where
  maxCycles := rfl
  maxTime := rfl
  maxOutput := rfl
  ending alike := by
    have same := congrArg State.ending alike
    exact same
  output alike := by
    have same := congrArg State.output alike
    exact same
  fault alike _ := (step_alike _ _ codels alike).1
  step alike _ := (step_alike _ _ codels alike).2

end Untraced

/-- Every state that a program reaches has sound registers, and whether the path is recorded changes
nothing else: not the states, and not the end of a run under any limits on any host. -/
theorem sound_of_reaches (options : Options) (codels : Codels) (input : String) :
    (∀ cycles state,
      (machine options codels).Reaches ((machine options codels).initial input) cycles state →
        Sound options codels (moves options codels input cycles) state.registers) ∧
    ∀ first second : Bool,
      let one := machine { options with trace := first } codels
      let two := machine { options with trace := second } codels
      (∀ cycles state, one.Reaches (one.initial input) cycles state →
        ∃ partner, two.Reaches (two.initial input) cycles partner ∧
          untraced state = untraced partner) ∧
      ∀ (m : Type → Type) [Monad m] [LawfulMonad m] (timeUp : m Bool),
        Finish.seen untraced <$> one.runWith timeUp input =
          Finish.seen untraced <$> two.runWith timeUp input := by
  constructor
  · intro cycles state reached
    exact (course_of_reaches reached).sound (poised_of_reaches reached)
  · intro first second one two
    have lockstep := lockstep_trace options codels first second
    have alike : untraced (one.initial input) = untraced (two.initial input) := rfl
    constructor
    · intro cycles state reached
      exact lockstep.reaches alike reached
    · intro m _ _ timeUp
      exact lockstep.driveWith id alike rfl timeUp 0 (options.maxCycles - 1)

theorem sound_at_wall :
    let red := Color.chromatic 0 1
    let codels := Codels.ofRows [[.white, red, .black]]
    let options : Options := { trace := true }
    let traced := machine options codels
    let other := machine { trace := false } codels
    ∃ state partner, traced.Reaches (traced.initial "") 2 state ∧
      state.registers.position = ⟨1, 0⟩ ∧ state.registers.phase = .blockedRetry 1 ∧
      state.registers.path = #[⟨0, 0⟩, ⟨1, 0⟩] ∧
      Sound options codels (moves options codels "" 2) state.registers ∧
      other.Reaches (other.initial "") 2 partner ∧ untraced state = untraced partner ∧
      Finish.seen untraced (Id.run (traced.runWith (pure false) "")) =
        Finish.seen untraced (Id.run (other.runWith (pure false) "")) := by
  intro red codels options traced other
  have goes : (traced.after? 2 (traced.initial "")).any fun state =>
      state.registers.position = ⟨1, 0⟩ ∧ state.registers.phase = .blockedRetry 1 ∧
        state.registers.path = #[⟨0, 0⟩, ⟨1, 0⟩] := by decide +kernel
  simp only [Option.any_eq_true, decide_eq_true_eq] at goes
  obtain ⟨state, after, position, phase, path⟩ := goes
  have reached := Machine.reaches_of_after? rfl after
  obtain ⟨sound, alike⟩ := sound_of_reaches options codels ""
  obtain ⟨statesAlike, runsAlike⟩ := alike true false
  obtain ⟨partner, partnerReached, same⟩ := statesAlike 2 state reached
  have sameRun := congrArg Id.run (runsAlike Id (pure false))
  rw [Id.run_map, Id.run_map] at sameRun
  exact ⟨state, partner, reached, position, phase, path, sound 2 state reached, partnerReached, same,
    sameRun⟩

end Esoterica.Piet
