import Esoterica.Proofs.Piet.Cycle

/-!
Slides over white. A slide goes straight to a wall and turns there, at most three times, so it passes
each codel once in each direction and is over after a way round the program.
-/

namespace Esoterica.Piet

namespace Codels

/-- How many codels lie side by side in a direction. -/
def extent (codels : Codels) : Direction → Nat
  | .right | .left => codels.width
  | .down | .up => codels.height

/-- How many codels lie between a codel and the edge, itself among them. -/
def ahead (codels : Codels) (codel : Codel) : Direction → Nat
  | .right => (codels.width - codel.x).toNat
  | .down => (codels.height - codel.y).toNat
  | .left => (codel.x + 1).toNat
  | .up => (codel.y + 1).toNat

/-- The extents in the directions of the next turns. -/
def wayRound (codels : Codels) (direction : Direction) : Nat → Nat
  | 0 => 0
  | turns + 1 => codels.extent direction.clockwise + codels.wayRound direction.clockwise turns

variable {codels : Codels} {codel : Codel}

theorem ahead_le (inside : codels.Inside codel) (direction : Direction) :
    codels.ahead codel direction ≤ codels.extent direction := by
  obtain ⟨left, right, above, below⟩ := inside
  cases direction <;> simp only [ahead, extent] <;> omega

theorem ahead_next (inside : codels.Inside codel) (direction : Direction) :
    codels.ahead (codel.next direction) direction + 1 = codels.ahead codel direction := by
  obtain ⟨left, right, above, below⟩ := inside
  cases direction <;> simp only [ahead, Codel.next, Direction.delta] <;> omega

theorem ahead_pos (inside : codels.Inside codel) (direction : Direction) :
    0 < codels.ahead codel direction := by
  rw [← ahead_next inside direction]
  exact Nat.succ_pos _

theorem wayRound_mono (codels : Codels) (direction : Direction) {fewer more : Nat}
    (fewerLe : fewer ≤ more) : codels.wayRound direction fewer ≤ codels.wayRound direction more := by
  induction fewer generalizing direction more with
  | zero => exact Nat.zero_le _
  | succ fewer inductionHypothesis =>
      obtain ⟨rest, rfl⟩ : ∃ rest, more = rest + 1 := ⟨more - 1, by omega⟩
      exact Nat.add_le_add_left (inductionHypothesis direction.clockwise (by omega)) _

/-- All the way round, each side is counted once. -/
theorem extent_add_wayRound (codels : Codels) (direction : Direction) :
    codels.extent direction + codels.wayRound direction 3 = 2 * (codels.width + codels.height) := by
  cases direction <;> simp only [extent, wayRound, Direction.clockwise] <;> omega

end Codels

/-- The cycles that a slide has left, at most. -/
def patience (codels : Codels) (registers : Registers) (walls : Nat) : Nat :=
  codels.ahead registers.position registers.dp +
    codels.wayRound registers.dp (wallLimit - 1 - walls)

section Slide

variable {options : Options} {codels : Codels} {state next : State Registers} {walls : Nat}

theorem Sliding.inside (sliding : Sliding codels state.registers walls) :
    codels.Inside state.registers.position :=
  Codels.inside_of_get? sliding.white

theorem Sliding.patience_pos (sliding : Sliding codels state.registers walls) :
    0 < patience codels state.registers walls :=
  Nat.add_pos_left (Codels.ahead_pos sliding.inside _) _

theorem Sliding.patience_le (sliding : Sliding codels state.registers walls) :
    patience codels state.registers walls ≤ 2 * (codels.width + codels.height) := by
  rw [← codels.extent_add_wayRound state.registers.dp]
  exact Nat.add_le_add (Codels.ahead_le sliding.inside _)
    (codels.wayRound_mono _ (Nat.sub_le _ _))

theorem Sliding.patience_slide {target : Codel} (sliding : Sliding codels state.registers walls)
    (ahead : target = state.registers.position.next state.registers.dp)
    (white : codels.get? target = some .white) :
    patience codels (enter options codels target state).registers walls + 1 =
      patience codels state.registers walls := by
  subst ahead
  rw [enter_of_white white sliding.fresh]
  have closer := Codels.ahead_next sliding.inside state.registers.dp
  simp only [patience, State.registers_update]
  omega

theorem Sliding.patience_turn (sliding : Sliding codels state.registers walls)
    (more : walls + 1 < wallLimit) :
    patience codels (meetWall state (walls + 1)).registers (walls + 1) + 1 ≤
      patience codels state.registers walls := by
  rw [meetWall_of_lt more]
  have here := Codels.ahead_pos sliding.inside state.registers.dp
  have there := Codels.ahead_le sliding.inside state.registers.dp.clockwise
  have turns : wallLimit - 1 - walls = wallLimit - 1 - (walls + 1) + 1 := by omega
  simp only [patience, State.registers_update]
  rw [turns, Codels.wayRound]
  omega

/-- A cycle of a slide that goes on meets a wall or not, and costs patience. -/
theorem Sliding.goesOn (sliding : Sliding codels state.registers walls)
    (running : state.ending = none) (goesOn : (machine options codels).next? state = some next)
    (white : codels.get? next.registers.position = some .white) :
    ∃ op met, decode codels state = some op ∧ Sliding codels next.registers met ∧
      met = walls + [op].count .blocked ∧
      patience codels next.registers met + 1 ≤ patience codels state.registers walls := by
  obtain ⟨stepped, continues⟩ := Machine.next?_eq_some_iff.1 goesOn
  have cycle : Cycle options codels state (decode codels state) _ := cycle_of_sliding sliding running
  rw [stepped] at cycle
  generalize decode codels state = decoded at cycle
  cases cycle with
  | ranOff closed => simp [sliding.isOpen] at closed
  | slide again ahead _ =>
      rw [(placed_enter ..).1] at white
      exact ⟨_, walls, rfl, sliding.next ahead white, by simp,
        Nat.le_of_eq (sliding.patience_slide ahead white)⟩
  | turn again _ more =>
      cases sliding.walls_eq again
      exact ⟨_, walls + 1, rfl, sliding.turn more, by simp, sliding.patience_turn more⟩
  | walledIn => simp [State.halt] at continues
  | leave onBlock | retry onBlock | noExit onBlock => exact (onBlock.not_white sliding.white).elim

/-- As long as the pointer is on white without interruption, there is patience for it. -/
theorem Sliding.count_le_patience {count : Nat} (sliding : Sliding codels state.registers walls)
    (running : state.ending = none)
    (onWhite : ∀ cycles < count, ∃ later, (machine options codels).after? cycles state = some later ∧
      codels.get? later.registers.position = some .white) :
    count ≤ patience codels state.registers walls := by
  induction count generalizing state walls with
  | zero => exact Nat.zero_le _
  | succ count inductionHypothesis =>
      rcases Nat.eq_zero_or_pos count with rfl | positive
      · exact sliding.patience_pos
      · obtain ⟨next, reached, white⟩ := onWhite 1 (by omega)
        rw [Machine.after?_one] at reached
        obtain ⟨_, met, _, slidingNext, _, cost⟩ := sliding.goesOn running reached white
        have rest := inductionHypothesis slidingNext (Machine.next?_eq_some_iff.1 reached).2
          (by
            intro cycles within
            obtain ⟨later, reachedLater, whiteLater⟩ := onWhite (cycles + 1) (by omega)
            rw [Machine.after?_succ, reached, Option.bind_some] at reachedLater
            exact ⟨later, reachedLater, whiteLater⟩)
        omega

/-- A state that the program reaches on white is one of a slide. -/
theorem exists_sliding (poised : Poised codels state.registers)
    (white : codels.get? state.registers.position = some .white) :
    ∃ walls, Sliding codels state.registers walls := by
  cases poised with
  | astray closed => simp [Codels.isOpen, white] at closed
  | sliding sliding => exact ⟨_, sliding⟩
  | onBlock onBlock => exact (onBlock.not_white white).elim

/-- The pointer stands on white. -/
def OnWhite (codels : Codels) (state : State Registers) : Prop :=
  codels.get? state.registers.position = some .white

/-- A slide that follows a cycle on a block begins with it. -/
theorem OnBlock.goesOn {attempts : Nat} (onBlock : OnBlock codels state.registers attempts)
    (running : state.ending = none) (goesOn : (machine options codels).next? state = some next)
    (white : OnWhite codels next) : Sliding codels next.registers 0 := by
  obtain ⟨stepped, continues⟩ := Machine.next?_eq_some_iff.1 goesOn
  have cycle : Cycle options codels state _ _ := cycle_of_onBlock onBlock running
  rw [stepped] at cycle
  generalize decode codels state = decoded at cycle
  cases cycle with
  | ranOff closed => simp [onBlock.isOpen] at closed
  | slide sliding | turn sliding | walledIn sliding => exact (onBlock.not_white sliding.white).elim
  | leave again _ _ _ moves performed =>
      rw [OnWhite, (placed_enter ..).1] at white
      exact again.slides moves performed white
  | retry again _ _ more =>
      rw [OnWhite, retry_of_lt more] at white
      exact (onBlock.not_white white).elim
  | noExit => simp [State.halt] at continues

variable {input : String} {cycles : Nat}

/-- The phase on white counts the walls that the slide has met since it began. -/
theorem exists_stretch
    (reached : (machine options codels).after? cycles ((machine options codels).initial input) =
      some state)
    (sliding : Sliding codels state.registers walls) :
    ∃ first entered,
      (machine options codels).Stretch ((machine options codels).initial input) (OnWhite codels) first
        cycles entered ∧
      ((machine options codels).trail (cycles - first) entered).count .blocked = walls := by
  -- The walls that the phase counts are those of one slide: off white the counting starts anew.
  induction cycles generalizing state walls with
  | zero =>
      refine ⟨0, state, .single reached (.inl rfl) sliding.white, ?_⟩
      rw [Machine.after?_zero, Option.some.injEq] at reached
      subst reached
      exact (sliding_start options sliding.white).walls_eq sliding
  | succ cycles inductionHypothesis =>
      obtain ⟨before, earlier, goesOn⟩ := Machine.after?_succ_eq_some_iff.1 reached
      have running := Machine.running_of_after? rfl earlier
      cases poised_of_reaches (Machine.reaches_of_after? rfl earlier) with
      | astray closed => simp [next?_of_closed closed] at goesOn
      | sliding slidingBefore =>
          obtain ⟨op, met, decoded, again, sum, _⟩ :=
            slidingBefore.goesOn running goesOn sliding.white
          obtain ⟨first, entered, stretch, counted⟩ := inductionHypothesis earlier slidingBefore
          refine ⟨first, entered, stretch.extend reached sliding.white, ?_⟩
          have trail := stretch.trail_succ earlier
          change _ = _ ++ (decode codels before).toList at trail
          rw [trail, decoded, Option.toList_some, List.count_append, counted, ← sum]
          exact again.walls_eq sliding
      | onBlock onBlock =>
          refine ⟨cycles + 1, state,
            .single reached (.inr ⟨before, earlier, onBlock.not_white⟩) sliding.white, ?_⟩
          rw [Nat.sub_self]
          exact (onBlock.goesOn running goesOn sliding.white).walls_eq sliding

/-- No program ends because a slide came back. -/
theorem not_revisited
    (reached : (machine options codels).Reaches ((machine options codels).initial input) cycles state)
    (x y : Int) (heading : Direction) : state.ending ≠ some (.revisited x y heading) := by
  intro revisited
  rcases ended_of_reaches reached (by simp [revisited]) with ⟨_, ending⟩ | ⟨_, _, _, ending⟩ |
    ⟨_, _, _, ending⟩ <;> simp [revisited] at ending

/-- A program that ends on white ends at a wall, the last one that its slide may meet. -/
theorem walledIn_of_endsAfter {final : State Registers}
    (ends : (machine options codels).EndsAfter cycles ((machine options codels).initial input)
      ⟨final, none⟩) (white : OnWhite codels final) :
    final.ending = some (.walledIn final.registers.position.x final.registers.position.y) ∧
      ∃ last walls, (machine options codels).after? cycles ((machine options codels).initial input) =
        some last ∧ Sliding codels last.registers walls ∧ walls + 1 = wallLimit ∧
          decode codels last = some .blocked := by
  obtain ⟨last, reached, isLast, stepped⟩ := ends
  have running := Machine.running_of_after? rfl reached
  have cycle := cycle_of_reaches (Machine.reaches_of_after? rfl reached) running
  have ended : final.ending ≠ none := by
    simpa [stepped, State.done, Option.isSome_iff_ne_none] using Machine.next?_eq_none_iff.1 isLast
  rw [stepped] at cycle
  rcases cycle.ends running ended with ⟨closed, rfl⟩ | ⟨walls, sliding, all, decoded, rfl⟩ |
    ⟨_, onBlock, _, _, rfl⟩
  · have opened : codels.isOpen last.registers.position = true :=
      Codels.isOpen_of_get? white (by decide)
    simp [opened] at closed
  · exact ⟨rfl, last, walls, reached, sliding, all, decoded⟩
  · exact (onBlock.not_white white).elim

/-- Cycles in a row on white are no more than it takes to go round the program. -/
theorem count_onWhite_le {first count : Nat}
    (onWhite : ∀ cycles, first ≤ cycles → cycles < first + count → ∃ state,
      (machine options codels).after? cycles ((machine options codels).initial input) = some state ∧
        OnWhite codels state) : count ≤ 2 * (codels.width + codels.height) := by
  rcases Nat.eq_zero_or_pos count with rfl | positive
  · exact Nat.zero_le _
  · obtain ⟨state, reached, white⟩ := onWhite first (Nat.le_refl _) (by omega)
    obtain ⟨walls, sliding⟩ :=
      exists_sliding (poised_of_reaches (Machine.reaches_of_after? rfl reached)) white
    have running := Machine.running_of_after? rfl reached
    have stays : ∀ cycles < count, ∃ later,
        (machine options codels).after? cycles state = some later ∧
        codels.get? later.registers.position = some .white := by
      intro cycles within
      obtain ⟨later, reachedLater, whiteLater⟩ := onWhite (first + cycles) (by omega) (by omega)
      rw [Machine.after?_add, reached, Option.bind_some] at reachedLater
      exact ⟨later, reachedLater, whiteLater⟩
    exact Nat.le_trans (sliding.count_le_patience running stays) sliding.patience_le

end Slide

/-- A slide never comes to where it has been in the same direction, so that a program which ends on
white has met its fourth wall there, and no slide takes more cycles than a way round the program. -/
theorem slides_end_at_walls (options : Options) (codels : Codels) (input : String) :
    let piet := machine options codels
    let initial := piet.initial input
    (∀ cycles state op target left, piet.after? cycles initial = some state →
      decode codels state = some op → op.target? = some target → execute op state = ⟨left, none⟩ →
        (target, left.registers.dp) ∉ left.registers.whiteSeen) ∧
    (∀ cycles state x y heading, piet.Reaches initial cycles state →
      state.ending ≠ some (.revisited x y heading)) ∧
    (∀ cycles final, piet.EndsAfter cycles initial ⟨final, none⟩ → OnWhite codels final →
      final.ending = some (.walledIn final.registers.position.x final.registers.position.y) ∧
        ∃ first entered, piet.Stretch initial (OnWhite codels) first cycles entered ∧
          (piet.trail (cycles + 1 - first) entered).count .blocked = 4 ∧
          (piet.trail (cycles + 1 - first) entered).getLast? = some .blocked) ∧
    ∀ first count, (∀ cycles, first ≤ cycles → cycles < first + count →
      ∃ state, piet.after? cycles initial = some state ∧ OnWhite codels state) →
        count ≤ 2 * (codels.width + codels.height) := by
  intro piet initial
  refine ⟨?_, ?_, ?_, ?_⟩
  · intro cycles state op target left reached decoded moves performed
    have cycle := cycle_of_reaches (Machine.reaches_of_after? rfl reached)
      (Machine.running_of_after? rfl reached)
    rw [decoded] at cycle
    exact cycle.fresh moves performed
  · intro cycles state x y heading reached
    exact not_revisited reached x y heading
  · intro cycles final ends white
    obtain ⟨ending, last, walls, reached, sliding, all, decoded⟩ := walledIn_of_endsAfter ends white
    obtain ⟨first, entered, stretch, counted⟩ := exists_stretch reached sliding
    have trail := stretch.trail_succ reached
    change _ = _ ++ (decode codels last).toList at trail
    rw [decoded, Option.toList_some] at trail
    refine ⟨ending, first, entered, stretch, ?_, ?_⟩
    · rw [trail, List.count_append, counted]
      exact all
    · rw [trail, List.getLast?_concat]
  · intro first count onWhite
    exact count_onWhite_le onWhite

/-- Two white codels have four walls around them, and a slide there is as long as it can be. -/
theorem slide_over_two_codels :
    let codels := Codels.ofRows [[.white, .white]]
    let piet := machine {} codels
    let initial := piet.initial ""
    (∀ cycles, 0 ≤ cycles → cycles < 0 + 6 →
      ∃ state, piet.after? cycles initial = some state ∧ OnWhite codels state) ∧
    6 ≤ 2 * (codels.width + codels.height) ∧
    ∃ final, piet.EndsAfter 5 initial ⟨final, none⟩ ∧ OnWhite codels final ∧
      final.ending = some (.walledIn final.registers.position.x final.registers.position.y) := by
  intro codels piet initial
  have slides : ∀ cycles < 6, (piet.after? cycles initial).any fun state =>
      codels.get? state.registers.position = some .white := by decide +kernel
  have ends : (piet.after? 5 initial).any fun last =>
      (piet.next? last).isNone ∧ (piet.step last).fault = none ∧
        codels.get? (piet.step last).state.registers.position = some .white := by decide +kernel
  simp only [Option.any_eq_true, decide_eq_true_eq] at slides ends
  obtain ⟨last, reached, isLast, noFault, white⟩ := ends
  have ended : piet.EndsAfter 5 initial ⟨(piet.step last).state, none⟩ :=
    ⟨last, reached, Option.isNone_iff_eq_none.1 isLast, by rw [← noFault]⟩
  have onWhite : ∀ cycles, 0 ≤ cycles → cycles < 0 + 6 →
      ∃ state, piet.after? cycles initial = some state ∧ OnWhite codels state :=
    fun cycles _ within => slides cycles (by omega)
  obtain ⟨_, _, walled, bounded⟩ := slides_end_at_walls {} codels ""
  exact ⟨onWhite, bounded 0 6 onWhite, _, ended, white, (walled 5 _ ended white).1⟩

end Esoterica.Piet
