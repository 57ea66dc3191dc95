import Esoterica.Proofs.Machine.Reaches
import Esoterica.Proofs.Piet.Exit

/-!
What a cycle does. The rule by which the pointer tries to move comes from the color under it, and the
rule by which it turns comes from its phase. The two fit together in every state that a program
reaches, and so a cycle comes to one of eight things.
-/

namespace Esoterica

@[simp] theorem State.registers_halt {Registers : Type} (state : State Registers) (ending : Ending) :
    (state.halt ending).registers = state.registers := rfl

@[simp] theorem State.registers_update {Registers : Type} (state : State Registers)
    (change : Registers → Registers) : (state.update change).registers = change state.registers := rfl

/-- It takes four quarter turns to face the same way again. -/
theorem Direction.turned_ne {direction : Direction} {turns : Nat} (positive : 0 < turns)
    (few : turns < 4) : direction.turned turns ≠ direction := by
  have cases : turns = 1 ∨ turns = 2 ∨ turns = 3 := by omega
  rcases cases with rfl | rfl | rfl <;> cases direction <;> decide

namespace Piet

/-- The codel to which an attempt leads. -/
def Op.target? : Op → Option Codel
  | .step target _ _ | .slide target => some target
  | .blocked => none

/-- The phase on a block after some failed attempts to leave it. -/
def Phase.retrying : Nat → Phase
  | 0 => .seekingExit
  | attempts + 1 => .blockedRetry (attempts + 1)

section Open

variable {codels : Codels} {codel : Codel} {color : Color}

theorem Codels.isOpen_of_get? (colored : codels.get? codel = some color)
    (notBlack : color ≠ .black) : codels.isOpen codel = true := by
  simp [isOpen, colored, notBlack]

theorem Codels.isOpen_iff :
    codels.isOpen codel = true ↔ ∃ color, codels.get? codel = some color ∧ color ≠ .black := by
  cases colored : codels.get? codel <;> simp [isOpen, colored]

theorem Codels.isOpen_eq_false_iff :
    codels.isOpen codel = false ↔ codels.get? codel = none ∨ codels.get? codel = some .black := by
  cases colored : codels.get? codel <;> simp [isOpen, colored]

/-- A codel is closed to the pointer, white or of a hue. -/
theorem Codels.closed_or_white_or_chromatic (codels : Codels) (codel : Codel) :
    codels.isOpen codel = false ∨ codels.get? codel = some .white ∨
      ∃ hue lightness, codels.get? codel = some (.chromatic hue lightness) := by
  rw [isOpen_eq_false_iff]
  cases codels.get? codel with
  | none => simp
  | some color => cases color <;> simp

end Open

section Attempt

variable {codels : Codels} {color : Color} {size : Nat} {target : Codel}

theorem attempt_of_closed (closed : codels.isOpen target = false) :
    attempt codels color size target = .blocked := by
  rcases Codels.isOpen_eq_false_iff.1 closed with colored | colored <;> simp [attempt, colored]

theorem target?_attempt (color : Color) (size : Nat) (opened : codels.isOpen target = true) :
    (attempt codels color size target).target? = some target := by
  obtain ⟨next, colored, notBlack⟩ := Codels.isOpen_iff.1 opened
  cases next with
  | black => exact (notBlack rfl).elim
  | _ => simp [attempt, colored, Op.target?]

variable {state : State Registers}

theorem decode_of_closed (closed : codels.isOpen state.registers.position = false) :
    decode codels state = none := by
  rcases Codels.isOpen_eq_false_iff.1 closed with colored | colored <;> simp [decode, colored]

theorem decode_of_white (white : codels.get? state.registers.position = some .white) :
    decode codels state =
      some (if codels.isOpen (state.registers.position.next state.registers.dp) then
        .slide (state.registers.position.next state.registers.dp) else .blocked) := by
  simp only [decode, white]

end Attempt

/-- A state at the place of another one: all but the heading, the stack, the input and the output is
taken from there. -/
def placedAs (place state : State Registers) : State Registers :=
  { state with
    registers := { place.registers with dp := state.registers.dp, cc := state.registers.cc }
    ending := place.ending }

section PlacedAs

variable (place state : State Registers)

theorem placedAs_self : placedAs state state = state := rfl

theorem stack_placedAs : (placedAs place state).stack = state.stack := rfl

theorem pop_placedAs : (placedAs place state).pop = (state.pop.1, placedAs place state.pop.2) := rfl

theorem push_placedAs (value : Word) :
    (placedAs place state).push value = (state.push value).within (placedAs place) := rfl

theorem readNumber_placedAs :
    (placedAs place state).readNumber = (state.readNumber.1, placedAs place state.readNumber.2) := rfl

theorem readChar_placedAs :
    (placedAs place state).readChar = (state.readChar.1, placedAs place state.readChar.2) := rfl

/-- A command neither knows nor changes the place of the pointer. -/
theorem apply_placedAs (command : Command) (blockSize : Word) :
    apply command blockSize (placedAs place state) =
      (apply command blockSize state).within (placedAs place) := by
  cases command with
  | switch =>
      simp only [apply, pop_placedAs]
      by_cases odd : state.pop.1.toInt % 2 = 1
      · simp only [odd, if_true]
        rfl
      · simp only [odd, if_false]
        rfl
  | roll =>
      simp only [apply, pop_placedAs]
      generalize state.pop.1 = count
      obtain ⟨depth, rest⟩ := state.pop.2.pop
      cases rolled : rest.stack.roll? depth count with
      | some stack =>
          simp only [stack_placedAs, rolled]
          rfl
      | none =>
          simp only [stack_placedAs, rolled, push_placedAs]
          exact Outcome.within_andThen fun state => push_placedAs place state count
  | inNumber =>
      simp only [apply, readNumber_placedAs]
      obtain ⟨value, rest⟩ := state.readNumber
      cases value <;> rfl
  | inChar =>
      simp only [apply, readChar_placedAs]
      obtain ⟨c, rest⟩ := state.readChar
      cases c <;> rfl
  | _ => rfl

end PlacedAs

/-- What an attempt carries out before the pointer moves does not move it. -/
theorem placedAs_of_execute {op : Op} {target : Codel} {state left : State Registers}
    {fault : Option Error} (moves : op.target? = some target)
    (performed : execute op state = ⟨left, fault⟩) : placedAs state left = left := by
  cases op with
  | step next command blockSize =>
      cases command with
      | none =>
          cases performed
          rfl
      | some command =>
          have placed := apply_placedAs state state command (Int64.ofNat blockSize)
          change apply command (Int64.ofNat blockSize) state = _ at performed
          rw [placedAs_self, performed] at placed
          exact (congrArg Outcome.state placed).symm
  | slide =>
      cases performed
      rfl
  | blocked => cases moves

section Enter

variable {options : Options} {codels : Codels} {target : Codel} {state : State Registers}

/-- The path after a move. -/
def extended (options : Options) (path : Array Codel) (target : Codel) : Array Codel :=
  if options.trace then path.push target else path

theorem enter_of_white (white : codels.get? target = some .white)
    (fresh : (target, state.registers.dp) ∉ state.registers.whiteSeen) :
    enter options codels target state = state.update fun registers =>
      { registers with
        position := target
        path := extended options registers.path target
        phase := registers.phase.onWhite
        whiteSeen := (target, registers.dp) :: registers.whiteSeen } := by
  simp [enter, white, State.update, fresh, extended]

theorem enter_of_colored (colored : codels.get? target ≠ some .white) :
    enter options codels target state = state.update fun registers =>
      { registers with
        position := target
        path := extended options registers.path target
        phase := .seekingExit
        whiteSeen := [] } := by
  simp [enter, colored, State.update, extended]

theorem enter_of_seen (white : codels.get? target = some .white)
    (seen : (target, state.registers.dp) ∈ state.registers.whiteSeen) :
    enter options codels target state = (state.update fun registers =>
      { registers with
        position := target
        path := extended options registers.path target
        phase := registers.phase.onWhite }).halt
          (.revisited target.x target.y state.registers.dp) := by
  simp [enter, white, State.update, seen, extended]

theorem placed_enter (options : Options) (codels : Codels) (target : Codel)
    (state : State Registers) :
    (enter options codels target state).registers.position = target ∧
      (enter options codels target state).registers.path =
        extended options state.registers.path target := by
  by_cases white : codels.get? target = some .white
  · by_cases seen : (target, state.registers.dp) ∈ state.registers.whiteSeen
    · rw [enter_of_seen white seen]
      exact ⟨rfl, rfl⟩
    · rw [enter_of_white white seen]
      exact ⟨rfl, rfl⟩
  · rw [enter_of_colored white]
    exact ⟨rfl, rfl⟩

theorem ending_enter (fresh : (target, state.registers.dp) ∉ state.registers.whiteSeen) :
    (enter options codels target state).ending = state.ending := by
  by_cases white : codels.get? target = some .white
  · rw [enter_of_white white fresh]
    rfl
  · rw [enter_of_colored white]
    rfl

end Enter

section Turn

variable {state : State Registers} {walls attempts : Nat}

theorem meetWall_of_lt (more : walls < wallLimit) :
    meetWall state walls = state.update fun registers =>
      { registers with
        cc := registers.cc.toggled
        dp := registers.dp.clockwise
        phase := .traversingWhite walls } := by
  rw [meetWall, if_neg (by omega)]

theorem retry_of_lt (more : attempts < retryLimit) :
    retry state attempts = state.update fun registers =>
      { registers with
        cc := if attempts % 2 = 1 then registers.cc.toggled else registers.cc
        dp := if attempts % 2 = 1 then registers.dp else registers.dp.clockwise
        phase := .blockedRetry attempts } := by
  rw [retry, if_neg (by omega)]
  congr 1
  funext registers
  split <;> rfl

end Turn

/-- An earlier visit of a slide is behind the pointer: in the direction in which it slides now, or in
one from which it has turned at a wall. -/
def Behind (registers : Registers) (walls : Nat) (visit : Codel × Direction) : Prop :=
  (visit.2 = registers.dp ∧
    visit.1.along registers.dp ≤ registers.position.along registers.dp) ∨
    ∃ turns, 0 < turns ∧ turns ≤ walls ∧ visit.2.turned turns = registers.dp

/-- The pointer slides over white and has met some walls. -/
structure Sliding (codels : Codels) (registers : Registers) (walls : Nat) : Prop where
  white : codels.get? registers.position = some .white
  phase : registers.phase = .traversingWhite walls
  few : walls < wallLimit
  behind : ∀ visit ∈ registers.whiteSeen, Behind registers walls visit

/-- The pointer is on a block and has failed to leave it in some attempts. -/
structure OnBlock (codels : Codels) (registers : Registers) (attempts : Nat) : Prop where
  chromatic : ∃ hue lightness, codels.get? registers.position = some (.chromatic hue lightness)
  phase : registers.phase = .retrying attempts
  few : attempts < retryLimit
  clear : registers.whiteSeen = []

/-- The phase fits the color under the pointer. -/
inductive Poised (codels : Codels) (registers : Registers) : Prop where
  | astray (closed : codels.isOpen registers.position = false)
  | sliding {walls : Nat} (sliding : Sliding codels registers walls)
  | onBlock {attempts : Nat} (onBlock : OnBlock codels registers attempts)

section Poised

variable {codels : Codels} {registers : Registers} {walls other attempts : Nat}

theorem Sliding.isOpen (sliding : Sliding codels registers walls) :
    codels.isOpen registers.position = true :=
  Codels.isOpen_of_get? sliding.white (by decide)

theorem OnBlock.isOpen (onBlock : OnBlock codels registers attempts) :
    codels.isOpen registers.position = true := by
  obtain ⟨hue, lightness, colored⟩ := onBlock.chromatic
  exact Codels.isOpen_of_get? colored (by simp)

theorem OnBlock.not_white (onBlock : OnBlock codels registers attempts) :
    codels.get? registers.position ≠ some .white := by
  obtain ⟨hue, lightness, colored⟩ := onBlock.chromatic
  simp [colored]

theorem Sliding.walls_eq (sliding : Sliding codels registers walls)
    (again : Sliding codels registers other) : walls = other :=
  Phase.traversingWhite.inj (sliding.phase.symm.trans again.phase)

end Poised

/-- A slide never comes to a codel again in the same direction: in each direction it goes straight on,
and it does not turn all the way round. -/
theorem Sliding.fresh {codels : Codels} {registers : Registers} {walls : Nat}
    (sliding : Sliding codels registers walls) :
    (registers.position.next registers.dp, registers.dp) ∉ registers.whiteSeen := by
  intro seen
  rcases sliding.behind _ seen with ⟨_, near⟩ | ⟨turns, positive, within, turned⟩
  · simp only [Codel.along_next] at near
    omega
  · exact Direction.turned_ne positive (Nat.lt_of_le_of_lt within sliding.few) turned

/-- What a cycle comes to: the attempt in it, if there is one, and its outcome. -/
inductive Cycle (options : Options) (codels : Codels) (state : State Registers) :
    Option Op → Outcome (State Registers) → Prop where
  | ranOff (closed : codels.isOpen state.registers.position = false) :
      Cycle options codels state none ⟨state.halt .ranOff, none⟩
  | slide {walls : Nat} {target : Codel} (sliding : Sliding codels state.registers walls)
      (ahead : target = state.registers.position.next state.registers.dp)
      (opened : codels.isOpen target = true) :
      Cycle options codels state (some (.slide target)) ⟨enter options codels target state, none⟩
  | turn {walls : Nat} (sliding : Sliding codels state.registers walls)
      (closed : codels.isOpen (state.registers.position.next state.registers.dp) = false)
      (more : walls + 1 < wallLimit) :
      Cycle options codels state (some .blocked) ⟨meetWall state (walls + 1), none⟩
  | walledIn {walls : Nat} (sliding : Sliding codels state.registers walls)
      (closed : codels.isOpen (state.registers.position.next state.registers.dp) = false)
      (last : walls + 1 = wallLimit) :
      Cycle options codels state (some .blocked)
        ⟨state.halt (.walledIn state.registers.position.x state.registers.position.y), none⟩
  | leave {attempts : Nat} {block : Block} {op : Op} {target : Codel} {left : State Registers}
      (onBlock : OnBlock codels state.registers attempts)
      (found : Block.around? codels state.registers.position = some block)
      (ahead : target = block.beyond state.registers.dp state.registers.cc)
      (opened : codels.isOpen target = true) (moves : op.target? = some target)
      (performed : execute op state = ⟨left, none⟩) :
      Cycle options codels state (some op) ⟨enter options codels target left, none⟩
  | fail {attempts : Nat} {op : Op} {left : State Registers} {fault : Error}
      (onBlock : OnBlock codels state.registers attempts) (moves : op.target?.isSome)
      (performed : execute op state = ⟨left, some fault⟩) :
      Cycle options codels state (some op) ⟨left, some fault⟩
  | retry {attempts : Nat} {block : Block} (onBlock : OnBlock codels state.registers attempts)
      (found : Block.around? codels state.registers.position = some block)
      (closed : codels.isOpen (block.beyond state.registers.dp state.registers.cc) = false)
      (more : attempts + 1 < retryLimit) :
      Cycle options codels state (some .blocked) ⟨retry state (attempts + 1), none⟩
  | noExit {attempts : Nat} {block : Block} (onBlock : OnBlock codels state.registers attempts)
      (found : Block.around? codels state.registers.position = some block)
      (closed : codels.isOpen (block.beyond state.registers.dp state.registers.cc) = false)
      (last : attempts + 1 = retryLimit) :
      Cycle options codels state (some .blocked)
        ⟨state.halt (.noExit state.registers.position.x state.registers.position.y), none⟩

section Step

variable {options : Options} {codels : Codels} {state : State Registers}

theorem next?_of_closed (closed : codels.isOpen state.registers.position = false) :
    (machine options codels).next? state = none := by
  simp [Machine.next?, Machine.step, machine, decode_of_closed closed, State.halt, State.done]

theorem step_of_blocked (decoded : decode codels state = some .blocked) :
    (machine options codels).step state = execute .blocked state := by
  rcases performed : execute .blocked state with ⟨next, _ | fault⟩ <;>
    simp [Machine.step, machine, decoded, advance, performed]

theorem step_of_target? {op : Op} {target : Codel} (decoded : decode codels state = some op)
    (moves : op.target? = some target) (running : state.ending = none) :
    (machine options codels).step state =
      if (execute op state).fault.isNone then
        ⟨enter options codels target (execute op state).state, none⟩
      else execute op state := by
  rcases performed : execute op state with ⟨left, fault⟩
  have going : left.done = false := by
    rw [← placedAs_of_execute moves performed]
    simp [State.done, placedAs, running]
  have advances : advance options codels op = enter options codels target := by
    cases op <;> cases moves <;> rfl
  simp [Machine.step, machine, decoded, performed, going, advances]

theorem execute_blocked_of_sliding {walls : Nat} (sliding : Sliding codels state.registers walls) :
    execute .blocked state = ⟨meetWall state (walls + 1), none⟩ := by
  simp only [execute, sliding.phase]

theorem execute_blocked_of_onBlock {attempts : Nat}
    (onBlock : OnBlock codels state.registers attempts) :
    execute .blocked state = ⟨retry state (attempts + 1), none⟩ := by
  cases attempts <;> simp only [execute, onBlock.phase, Phase.retrying]

theorem cycle_of_sliding {walls : Nat} (sliding : Sliding codels state.registers walls)
    (running : state.ending = none) :
    Cycle options codels state (decode codels state) ((machine options codels).step state) := by
  have decoded := decode_of_white sliding.white
  cases opened : codels.isOpen (state.registers.position.next state.registers.dp) with
  | true =>
      rw [opened, if_pos rfl] at decoded
      rw [step_of_target? decoded rfl running, decoded]
      exact .slide sliding rfl opened
  | false =>
      rw [opened, if_neg (by decide)] at decoded
      rw [step_of_blocked decoded, decoded, execute_blocked_of_sliding sliding]
      have few := sliding.few
      by_cases last : walls + 1 = wallLimit
      · rw [meetWall, if_pos (by omega)]
        exact .walledIn sliding opened last
      · exact .turn sliding opened (by omega)

/-- An attempt to leave a block by a closed exit fails. -/
theorem OnBlock.blocked {attempts : Nat} {block : Block}
    (onBlock : OnBlock codels state.registers attempts)
    (found : Block.around? codels state.registers.position = some block)
    (closed : codels.isOpen (block.beyond state.registers.dp state.registers.cc) = false) :
    decode codels state = some .blocked ∧
      (machine options codels).step state = ⟨retry state (attempts + 1), none⟩ := by
  obtain ⟨hue, lightness, colored⟩ := onBlock.chromatic
  have decoded := decode_of_around? colored found
  rw [attempt_of_closed closed] at decoded
  exact ⟨decoded, (step_of_blocked decoded).trans (execute_blocked_of_onBlock onBlock)⟩

theorem cycle_of_onBlock {attempts : Nat} (onBlock : OnBlock codels state.registers attempts)
    (running : state.ending = none) :
    Cycle options codels state (decode codels state) ((machine options codels).step state) := by
  obtain ⟨hue, lightness, colored⟩ := onBlock.chromatic
  obtain ⟨block, found, _⟩ := Block.exists_around? colored
  cases opened : codels.isOpen (block.beyond state.registers.dp state.registers.cc) with
  | true =>
      have decoded := decode_of_around? colored found
      have moves := target?_attempt (.chromatic hue lightness) block.size opened
      rw [step_of_target? decoded moves running, decoded]
      generalize attempt codels (.chromatic hue lightness) block.size _ = op at moves
      rcases performed : execute op state with ⟨left, _ | fault⟩
      · exact .leave onBlock found rfl opened moves performed
      · exact .fail onBlock (by simp [moves]) performed
  | false =>
      obtain ⟨decoded, stepped⟩ := onBlock.blocked found opened
      rw [stepped, decoded]
      have few := onBlock.few
      by_cases last : attempts + 1 = retryLimit
      · rw [retry, if_pos (by omega)]
        exact .noExit onBlock found opened last
      · exact .retry onBlock found opened (by omega)

/-- The phase and the color together say what a cycle comes to. -/
theorem cycle_of_poised (poised : Poised codels state.registers) (running : state.ending = none) :
    Cycle options codels state (decode codels state) ((machine options codels).step state) := by
  cases poised with
  | astray closed =>
      have decoded := decode_of_closed closed
      simp only [Machine.step, machine, decoded]
      exact .ranOff closed
  | sliding sliding => exact cycle_of_sliding sliding running
  | onBlock onBlock => exact cycle_of_onBlock onBlock running

end Step

section Invariant

variable {options : Options} {codels : Codels} {state : State Registers}

theorem Sliding.next {walls : Nat} (sliding : Sliding codels state.registers walls) {target : Codel}
    (ahead : target = state.registers.position.next state.registers.dp)
    (white : codels.get? target = some .white) :
    Sliding codels (enter options codels target state).registers walls := by
  subst ahead
  rw [enter_of_white white sliding.fresh]
  refine ⟨white, by simp [State.update, sliding.phase, Phase.onWhite], sliding.few, ?_⟩
  intro visit seen
  rcases List.mem_cons.1 seen with rfl | seen
  · exact .inl ⟨rfl, Int.le_refl _⟩
  · rcases sliding.behind visit seen with ⟨heading, near⟩ | turned
    · refine .inl ⟨heading, Int.le_trans near ?_⟩
      change _ ≤ (state.registers.position.next state.registers.dp).along state.registers.dp
      rw [Codel.along_next]
      omega
    · exact .inr turned

theorem Sliding.turn {walls : Nat} (sliding : Sliding codels state.registers walls)
    (more : walls + 1 < wallLimit) :
    Sliding codels (meetWall state (walls + 1)).registers (walls + 1) := by
  rw [meetWall_of_lt more]
  refine ⟨sliding.white, rfl, more, ?_⟩
  intro visit seen
  rcases sliding.behind visit seen with ⟨heading, _⟩ | ⟨turns, positive, within, turned⟩
  · exact .inr ⟨1, by omega, by omega, by rw [heading]; rfl⟩
  · exact .inr ⟨turns + 1, by omega, by omega, congrArg Direction.clockwise turned⟩

theorem OnBlock.retry {attempts : Nat} (onBlock : OnBlock codels state.registers attempts)
    (more : attempts + 1 < retryLimit) :
    OnBlock codels (retry state (attempts + 1)).registers (attempts + 1) := by
  rw [retry_of_lt more]
  exact ⟨onBlock.chromatic, rfl, more, onBlock.clear⟩

section Leave

variable {attempts : Nat} {op : Op} {target : Codel} {left : State Registers} {fault : Option Error}

/-- Whoever leaves a block has been nowhere on white. -/
theorem OnBlock.fresh (onBlock : OnBlock codels state.registers attempts)
    (moves : op.target? = some target) (performed : execute op state = ⟨left, fault⟩) :
    (target, left.registers.dp) ∉ left.registers.whiteSeen := by
  have clear : left.registers.whiteSeen = [] := by
    rw [← placedAs_of_execute moves performed]
    exact onBlock.clear
  simp [clear]

/-- Whoever comes from a block to white begins a slide there. -/
theorem OnBlock.slides (onBlock : OnBlock codels state.registers attempts)
    (moves : op.target? = some target) (performed : execute op state = ⟨left, fault⟩)
    (white : codels.get? target = some .white) :
    Sliding codels (enter options codels target left).registers 0 := by
  have placed := placedAs_of_execute moves performed
  rw [enter_of_white white (onBlock.fresh moves performed), ← placed]
  refine ⟨white, ?_, by decide, ?_⟩
  · have phase : (placedAs state left).registers.phase = .retrying attempts := onBlock.phase
    cases attempts <;> simp [phase, Phase.retrying, Phase.onWhite]
  · intro visit seen
    have clear : (placedAs state left).registers.whiteSeen = [] := onBlock.clear
    simp only [State.registers_update, clear, List.mem_singleton] at seen
    subst seen
    exact .inl ⟨rfl, Int.le_refl _⟩

end Leave

theorem onBlock_enter {target : Codel}
    (chromatic : ∃ hue lightness, codels.get? target = some (.chromatic hue lightness)) :
    OnBlock codels (enter options codels target state).registers 0 := by
  obtain ⟨hue, lightness, colored⟩ := chromatic
  rw [enter_of_colored (by simp [colored])]
  exact ⟨⟨hue, lightness, colored⟩, rfl, by decide, rfl⟩

/-- A cycle that does not fail leaves the phase in keeping with the color. -/
theorem Cycle.poised {op : Option Op} {next : State Registers}
    (cycle : Cycle options codels state op ⟨next, none⟩) : Poised codels next.registers := by
  cases cycle with
  | ranOff closed => exact .astray closed
  | @slide walls target sliding ahead opened =>
      rcases codels.closed_or_white_or_chromatic target with closed | white | chromatic
      · simp [opened] at closed
      · exact .sliding (sliding.next ahead white)
      · exact .onBlock (onBlock_enter chromatic)
  | turn sliding _ more => exact .sliding (sliding.turn more)
  | walledIn sliding => exact .sliding sliding
  | @leave attempts block op target left onBlock _ _ opened moves performed =>
      rcases codels.closed_or_white_or_chromatic target with closed | white | chromatic
      · simp [opened] at closed
      · exact .sliding (onBlock.slides moves performed white)
      · exact .onBlock (onBlock_enter chromatic)
  | retry onBlock _ _ more => exact .onBlock (onBlock.retry more)
  | noExit onBlock => exact .onBlock onBlock

/-- Before a move, the pointer has not been where it goes. -/
theorem Cycle.fresh {op : Op} {target : Codel} {left : State Registers}
    {outcome : Outcome (State Registers)} (cycle : Cycle options codels state (some op) outcome)
    (moves : op.target? = some target) (performed : execute op state = ⟨left, none⟩) :
    (target, left.registers.dp) ∉ left.registers.whiteSeen := by
  cases cycle with
  | slide sliding ahead =>
      cases moves
      cases performed
      exact ahead ▸ sliding.fresh
  | leave onBlock | fail onBlock => exact onBlock.fresh moves performed
  | turn | walledIn | retry | noExit => cases moves

/-- A cycle ends the program in one of three ways. -/
theorem Cycle.ends {op : Option Op} {next : State Registers}
    (cycle : Cycle options codels state op ⟨next, none⟩) (running : state.ending = none)
    (ended : next.ending ≠ none) :
    (codels.isOpen state.registers.position = false ∧ next = state.halt .ranOff) ∨
    (∃ walls, Sliding codels state.registers walls ∧ walls + 1 = wallLimit ∧ op = some .blocked ∧
      next = state.halt (.walledIn state.registers.position.x state.registers.position.y)) ∨
    ∃ attempts, OnBlock codels state.registers attempts ∧ attempts + 1 = retryLimit ∧
      op = some .blocked ∧
      next = state.halt (.noExit state.registers.position.x state.registers.position.y) := by
  cases cycle with
  | ranOff closed => exact .inl ⟨closed, rfl⟩
  | slide sliding ahead =>
      rw [ending_enter (ahead ▸ sliding.fresh)] at ended
      exact (ended running).elim
  | turn _ _ more =>
      rw [meetWall_of_lt more] at ended
      exact (ended running).elim
  | walledIn sliding _ last => exact .inr (.inl ⟨_, sliding, last, rfl, rfl⟩)
  | leave onBlock _ _ _ moves performed =>
      rw [ending_enter (onBlock.fresh moves performed),
        ← placedAs_of_execute moves performed] at ended
      exact (ended running).elim
  | retry _ _ _ more =>
      rw [retry_of_lt more] at ended
      exact (ended running).elim
  | noExit onBlock _ _ last => exact .inr (.inr ⟨_, onBlock, last, rfl, rfl⟩)

theorem sliding_start (options : Options) (white : codels.get? ⟨0, 0⟩ = some .white) :
    Sliding codels (start options codels) 0 :=
  ⟨white, by simp [start, white], by decide, by simp [start]⟩

theorem poised_start (options : Options) (codels : Codels) :
    Poised codels (start options codels) := by
  rcases codels.closed_or_white_or_chromatic ⟨0, 0⟩ with closed | white | ⟨hue, lightness, colored⟩
  · exact .astray closed
  · exact .sliding (sliding_start options white)
  · have onBlock : OnBlock codels (start options codels) 0 :=
      ⟨⟨hue, lightness, colored⟩, by simp [start, colored, Phase.retrying], by decide, rfl⟩
    exact .onBlock onBlock

variable {input : String} {cycles : Nat}

/-- In every state that a program reaches, the phase fits the color. -/
theorem poised_of_reaches
    (reached : (machine options codels).Reaches ((machine options codels).initial input) cycles state) :
    Poised codels state.registers := by
  induction reached with
  | start => exact poised_start options codels
  | cycle _ running stepped inductionHypothesis =>
      exact (stepped ▸ cycle_of_poised inductionHypothesis running).poised

theorem cycle_of_reaches
    (reached : (machine options codels).Reaches ((machine options codels).initial input) cycles state)
    (running : state.ending = none) :
    Cycle options codels state (decode codels state) ((machine options codels).step state) :=
  cycle_of_poised (poised_of_reaches reached) running

/-- A program that has ended has run off, met its last wall on white or failed to leave a block. -/
theorem ended_of_reaches
    (reached : (machine options codels).Reaches ((machine options codels).initial input) cycles state)
    (ended : state.ending ≠ none) :
    (codels.isOpen state.registers.position = false ∧ state.ending = some .ranOff) ∨
    (∃ walls, Sliding codels state.registers walls ∧ walls + 1 = wallLimit ∧
      state.ending =
        some (.walledIn state.registers.position.x state.registers.position.y)) ∨
    ∃ attempts, OnBlock codels state.registers attempts ∧ attempts + 1 = retryLimit ∧
      state.ending = some (.noExit state.registers.position.x state.registers.position.y) := by
  cases reached with
  | start => exact (ended rfl).elim
  | cycle before running stepped =>
      have cycle := cycle_of_reaches before running
      rw [stepped] at cycle
      rcases cycle.ends running ended with ⟨closed, rfl⟩ | ⟨walls, sliding, last, _, rfl⟩ |
        ⟨attempts, onBlock, last, _, rfl⟩
      · exact .inl ⟨closed, rfl⟩
      · exact .inr (.inl ⟨walls, sliding, last, rfl⟩)
      · exact .inr (.inr ⟨attempts, onBlock, last, rfl⟩)

end Invariant

end Piet

end Esoterica
