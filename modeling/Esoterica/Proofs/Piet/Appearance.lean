import Esoterica.Program
import Esoterica.Proofs.Machine.Lockstep
import Esoterica.Proofs.Piet.Cycle
import Mathlib.Data.ZMod.Defs

/-!
What the machine sees of a program: where the pointer may stand, what is white there, and how hue and
lightness change from one block to the next. Programs that look alike in this run alike. So the circles
of hues and lightnesses may be turned, and black may be put around the edge.
-/

namespace Esoterica.Piet

namespace Color

/-- The color some hues and some lightnesses further on; white and black have neither. -/
def shifted (hue : Hue) (lightness : Lightness) : Color → Color
  | chromatic oldHue oldLightness => chromatic (oldHue + hue) (oldLightness + lightness)
  | white => white
  | black => black

variable {hue : Hue} {lightness : Lightness} {color other : Color}

theorem shifted_zero : shifted 0 0 = id := by
  funext color
  cases color <;> simp [shifted]

@[simp] theorem shifted_inj :
    color.shifted hue lightness = other.shifted hue lightness ↔ color = other := by
  cases color <;> cases other <;> simp [shifted]

@[simp] theorem shifted_eq_black_iff : color.shifted hue lightness = black ↔ color = black := by
  cases color <;> simp [shifted]

/-- The way from one color to another does not depend on where the circles begin. -/
theorem stepsTo?_shifted (hue : Hue) (lightness : Lightness) (color other : Color) :
    (color.shifted hue lightness).stepsTo? (other.shifted hue lightness) = color.stepsTo? other := by
  cases color <;> cases other <;> simp [shifted, stepsTo?]

theorem between_shifted (hue : Hue) (lightness : Lightness) (color other : Color) :
    Command.between (color.shifted hue lightness) (other.shifted hue lightness) =
      Command.between color other := by
  rw [Command.between, Command.between, stepsTo?_shifted]

end Color

namespace Codels

/-- The color at a codel, if the pointer may stand there. -/
def footing? (codels : Codels) (codel : Codel) : Option Color :=
  (codels.get? codel).filter (· ≠ .black)

theorem footing?_eq_some_iff {codels : Codels} {codel : Codel} {color : Color} :
    codels.footing? codel = some color ↔ codels.get? codel = some color ∧ color ≠ .black := by
  simp [footing?, Option.filter_eq_some_iff]

theorem isOpen_eq_isSome (codels : Codels) (codel : Codel) :
    codels.isOpen codel = (codels.footing? codel).isSome := by
  rw [Bool.eq_iff_iff, isOpen_iff, Option.isSome_iff_exists]
  simp only [footing?_eq_some_iff]

/-- The pointer may stand on the same codels of both programs, and the colors on which it stands differ
by one shift for all of them. -/
def LooksLike (codels other : Codels) (hue : Hue) (lightness : Lightness) : Prop :=
  ∀ codel, codels.footing? codel = (other.footing? codel).map (Color.shifted hue lightness)

namespace LooksLike

variable {codels other : Codels} {hue : Hue} {lightness : Lightness} {color : Color}
  {codel first last : Codel}

theorem get?_iff (alike : codels.LooksLike other hue lightness) (notBlack : color ≠ .black) :
    codels.get? codel = some (color.shifted hue lightness) ↔ other.get? codel = some color := by
  have shiftedToo : color.shifted hue lightness ≠ .black := by simpa using notBlack
  have looks : codels.footing? codel = some (color.shifted hue lightness) ↔
      other.footing? codel = some color := by
    rw [alike codel, Option.map_eq_some_iff]
    simp
  simpa [footing?_eq_some_iff, notBlack, shiftedToo] using looks

theorem isOpen_eq (alike : codels.LooksLike other hue lightness) (codel : Codel) :
    codels.isOpen codel = other.isOpen codel := by
  rw [isOpen_eq_isSome, isOpen_eq_isSome, alike codel, Option.isSome_map]

theorem white_iff (alike : codels.LooksLike other hue lightness) :
    codels.get? codel = some .white ↔ other.get? codel = some .white := by
  have notBlack : Color.white ≠ .black := by decide
  exact alike.get?_iff notBlack

/-- What hangs together in one program hangs together in the other. -/
theorem joined_iff (alike : codels.LooksLike other hue lightness) (notBlack : color ≠ .black) :
    codels.Joined (color.shifted hue lightness) first last ↔ other.Joined color first last := by
  constructor
  · intro joined
    induction joined with
    | here colored => exact .here ((alike.get?_iff notBlack).1 colored)
    | next _ direction colored inductionHypothesis =>
        exact inductionHypothesis.next direction ((alike.get?_iff notBlack).1 colored)
  · intro joined
    induction joined with
    | here colored => exact .here ((alike.get?_iff notBlack).2 colored)
    | next _ direction colored inductionHypothesis =>
        exact inductionHypothesis.next direction ((alike.get?_iff notBlack).2 colored)

/-- The blocks around a codel have the same codels in both programs. -/
theorem exists_perm (alike : codels.LooksLike other hue lightness) (notBlack : color ≠ .black)
    (colored : other.get? codel = some color) :
    ∃ block otherBlock, Block.around? codels codel = some block ∧
      Block.around? other codel = some otherBlock ∧ otherBlock.codels ≠ [] ∧
      block.codels.Perm otherBlock.codels := by
  obtain ⟨block, found, colorEq⟩ := Block.exists_around? ((alike.get?_iff notBlack).2 colored)
  obtain ⟨otherBlock, otherFound, otherColorEq⟩ := Block.exists_around? colored
  have isAround := Block.isAround_of_around? found
  have otherAround := Block.isAround_of_around? otherFound
  have nonempty : otherBlock.codels ≠ [] := List.ne_nil_of_mem (otherAround.isExit .right .left).mem
  refine ⟨block, otherBlock, found, otherFound, nonempty, ?_⟩
  refine (List.perm_ext_iff_of_nodup isAround.nodup otherAround.nodup).2 ?_
  intro member
  rw [isAround.mem_iff, otherAround.mem_iff, colorEq, otherColorEq]
  exact alike.joined_iff notBlack

theorem attempt_eq (alike : codels.LooksLike other hue lightness) (color : Color) (size : Nat)
    (target : Codel) :
    attempt codels (color.shifted hue lightness) size target = attempt other color size target := by
  rcases other.closed_or_white_or_chromatic target with
    closed | white | ⟨oldHue, oldLightness, colored⟩
  · rw [attempt_of_closed closed, attempt_of_closed ((alike.isOpen_eq target).trans closed)]
  · simp only [attempt, white, alike.white_iff.2 white]
  · have shifted := (alike.get?_iff (by simp)).2 colored
    have sameCommand :=
      Color.between_shifted hue lightness color (.chromatic oldHue oldLightness)
    simp only [attempt, colored, shifted, ← sameCommand]
    rfl

/-- The pointer makes the same attempts in both programs. -/
theorem decode_eq (alike : codels.LooksLike other hue lightness) (state : State Registers) :
    decode codels state = decode other state := by
  rcases other.closed_or_white_or_chromatic state.registers.position with
    closed | white | ⟨oldHue, oldLightness, colored⟩
  · rw [decode_of_closed closed, decode_of_closed ((alike.isOpen_eq _).trans closed)]
  · rw [decode_of_white white, decode_of_white (alike.white_iff.2 white), alike.isOpen_eq]
  · have shifted := (alike.get?_iff (by simp)).2 colored
    obtain ⟨block, otherBlock, found, otherFound, nonempty, perm⟩ :=
      alike.exists_perm (by simp) colored
    rw [decode_of_around? colored otherFound, decode_of_around? shifted found, Block.beyond,
      Block.beyond, Block.exit_eq_of_perm nonempty perm, Block.size, Block.size, perm.length_eq]
    exact congrArg some (alike.attempt_eq (.chromatic oldHue oldLightness) _ _)

theorem enter_eq (alike : codels.LooksLike other hue lightness) (options : Options) (target : Codel)
    (state : State Registers) : enter options codels target state = enter options other target state := by
  simp only [enter, alike.white_iff]

theorem start_eq (alike : codels.LooksLike other hue lightness) (options : Options) :
    start options codels = start options other := by
  simp only [start, alike.white_iff]

theorem step_eq (alike : codels.LooksLike other hue lightness) (options : Options)
    (state : State Registers) :
    (machine options codels).step state = (machine options other).step state := by
  have advances (op : Op) : advance options codels op = advance options other op := by
    funext state
    cases op with
    | step target | slide target => exact alike.enter_eq options target state
    | blocked => rfl
  simp only [Machine.step, machine, alike.decode_eq, advances]
  rfl

/-- Programs that look alike run alike, on every host. -/
theorem runWith_eq (alike : codels.LooksLike other hue lightness) {m : Type → Type} [Monad m]
    (options : Options) (timeUp : m Bool) (input : String) :
    (machine options codels).runWith timeUp input = (machine options other).runWith timeUp input := by
  apply Machine.runWith_eq_of_step
  · rfl
  · exact alike.start_eq options
  · exact alike.step_eq options

/-- The results differ at most in the pictures and snapshots, which show colors. -/
theorem run_eq (alike : codels.LooksLike other hue lightness) (options : Options) (input : String) :
    let run := (Program.piet codels).run options input
    let otherRun := (Program.piet other).run options input
    run.output = otherRun.output ∧ run.fault = otherRun.fault ∧ run.cycles = otherRun.cycles := by
  have finishes : (machine options codels).finish input = (machine options other).finish input :=
    congrArg Id.run (alike.runWith_eq options (pure false) input)
  simp only [Program.run, Program.record, Program.withMachine, Program.recordOf, Machine.conclude,
    finishes, and_self]

end LooksLike

/-- The program with all hues and all lightnesses shifted. -/
def shifted (codels : Codels) (hue : Hue) (lightness : Lightness) : Codels where
  width := codels.width
  height := codels.height
  colors := codels.colors.map (Color.shifted hue lightness)
  sizeEq := by simp [codels.sizeEq]

theorem get?_shifted (codels : Codels) (hue : Hue) (lightness : Lightness) (codel : Codel) :
    (codels.shifted hue lightness).get? codel =
      (codels.get? codel).map (Color.shifted hue lightness) := by
  simp only [get?, shifted, index, Array.getElem?_map]
  split <;> rfl

theorem looksLike_shifted (codels : Codels) (hue : Hue) (lightness : Lightness) :
    (codels.shifted hue lightness).LooksLike codels hue lightness := by
  intro codel
  rw [footing?, footing?, get?_shifted]
  cases codels.get? codel with
  | none => rfl
  | some color => cases color <;> rfl

/-- The color that a function gives is found in its column and row. -/
theorem get?_ofFn {width height : Nat} {color : Nat → Nat → Color} {codel : Codel}
    (inside : (ofFn width height color).Inside codel) :
    (ofFn width height color).get? codel = some (color codel.x.toNat codel.y.toNat) := by
  have within := index_lt inside
  have column : codel.x.toNat < width := by
    have left := inside.1
    have right : codel.x < width := inside.2.1
    omega
  have indexed : (ofFn width height color).index codel = codel.x.toNat + width * codel.y.toNat := by
    simp only [index, ofFn]
    rw [Nat.mul_comm, Nat.add_comm]
  have columnOf : (ofFn width height color).index codel % width = codel.x.toNat := by
    rw [indexed, Nat.add_mul_mod_self_left, Nat.mod_eq_of_lt column]
  have rowOf : (ofFn width height color).index codel / width = codel.y.toNat := by
    rw [indexed, Nat.add_mul_div_left _ _ (by omega), Nat.div_eq_of_lt column, Nat.zero_add]
  calc (ofFn width height color).get? codel
      = (ofFn width height color).colors[(ofFn width height color).index codel]? := if_pos inside
    _ = some (color codel.x.toNat codel.y.toNat) := by
        rw [Array.getElem?_eq_getElem within, ← columnOf, ← rowOf]
        exact congrArg some (Array.getElem_ofFn _)

/-- The program with black columns at its right and black rows at its bottom. -/
def bordered (codels : Codels) (columns rows : Nat) : Codels :=
  ofFn (codels.width + columns) (codels.height + rows) fun x y => (codels.get? ⟨x, y⟩).getD .black

theorem looksLike_bordered (codels : Codels) (columns rows : Nat) :
    (codels.bordered columns rows).LooksLike codels 0 0 := by
  intro codel
  by_cases inside : (codels.bordered columns rows).Inside codel
  · have column := Int.toNat_of_nonneg inside.1
    have row := Int.toNat_of_nonneg inside.2.2.1
    have colored : (codels.bordered columns rows).get? codel =
        some ((codels.get? codel).getD .black) := by
      rw [bordered, get?_ofFn inside, column, row]
    rw [footing?, footing?, colored, Color.shifted_zero, Option.map_id]
    cases codels.get? codel <;> rfl
  · have outside : ¬ codels.Inside codel := by
      rintro ⟨left, right, above, below⟩
      refine inside ⟨left, ?_, above, ?_⟩ <;> simp only [bordered, ofFn] <;> omega
    rw [footing?, footing?, get?_of_not_inside inside, get?_of_not_inside outside]
    rfl

end Codels

/-- A shift of all hues and lightnesses is not noticed: on every host the run comes to the same last
state, with the same stack, position, pointer, chooser and phase in it, after the same number of cycles
and with the same fault. -/
theorem runs_alike_of_shift (options : Options) (codels : Codels) (hue : Hue) (lightness : Lightness)
    (input : String) :
    (∀ (m : Type → Type) [Monad m] (timeUp : m Bool),
      (machine options (codels.shifted hue lightness)).runWith timeUp input =
        (machine options codels).runWith timeUp input) ∧
    let shifted := (Program.piet (codels.shifted hue lightness)).run options input
    let run := (Program.piet codels).run options input
    shifted.output = run.output ∧ shifted.fault = run.fault ∧ shifted.cycles = run.cycles := by
  have alike := codels.looksLike_shifted hue lightness
  exact ⟨fun m _ timeUp => alike.runWith_eq options timeUp input, alike.run_eq options input⟩

/-- Off the program is as good as black: with black columns and rows added, the run on every host comes
to the same last state after the same number of cycles and with the same fault. -/
theorem runs_alike_in_border (options : Options) (codels : Codels) (columns rows : Nat)
    (input : String) :
    (∀ (m : Type → Type) [Monad m] (timeUp : m Bool),
      (machine options (codels.bordered columns rows)).runWith timeUp input =
        (machine options codels).runWith timeUp input) ∧
    let bordered := (Program.piet (codels.bordered columns rows)).run options input
    let run := (Program.piet codels).run options input
    bordered.output = run.output ∧ bordered.fault = run.fault ∧ bordered.cycles = run.cycles := by
  have alike := codels.looksLike_bordered columns rows
  exact ⟨fun m _ timeUp => alike.runWith_eq options timeUp input, alike.run_eq options input⟩

end Esoterica.Piet
