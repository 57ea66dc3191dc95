import Esoterica.Piet.Machine
import Esoterica.Proofs.Piet.Fill

/-!
Where the pointer leaves a block. The exit is one codel of the block, whatever the order in which the
block is listed, so that an attempt to move is the same from every codel of a block. Beyond the exit lies
another color, so that every step into a block carries out a command.
-/

namespace Esoterica.Piet

namespace Codel

variable {first second : Codel}

theorem along_next (codel : Codel) (direction : Direction) :
    (codel.next direction).along direction = codel.along direction + 1 := by
  cases direction <;> simp [next, along, Direction.delta] <;> omega

/-- How far a codel lies ahead and aside says which one it is. -/
theorem eq_of_along (direction : Direction) (chooser : Chooser)
    (ahead : first.along direction = second.along direction)
    (aside : first.along (chooser.absolute direction) = second.along (chooser.absolute direction)) :
    first = second := by
  cases first
  cases second
  cases chooser <;> cases direction <;>
    simp_all [along, Chooser.absolute, Direction.counterClockwise, Direction.turned,
      Direction.clockwise]

end Codel

/-- One of the listed codels lies farthest in a direction, and of those equally far it lies farthest to
the chooser's side. -/
structure IsExit (listed : List Codel) (direction : Direction) (chooser : Chooser) (exit : Codel) :
    Prop where
  mem : exit ∈ listed
  ahead : ∀ codel ∈ listed, codel.along direction ≤ exit.along direction
  aside : ∀ codel ∈ listed, codel.along direction = exit.along direction →
    codel.along (chooser.absolute direction) ≤ exit.along (chooser.absolute direction)

section IsExit

variable {listed other : List Codel} {direction : Direction} {chooser : Chooser} {exit rival : Codel}

/-- There are no ties. -/
theorem IsExit.unique (isExit : IsExit listed direction chooser exit)
    (rivals : IsExit listed direction chooser rival) : rival = exit := by
  have ahead : rival.along direction = exit.along direction :=
    Int.le_antisymm (isExit.ahead rival rivals.mem) (rivals.ahead exit isExit.mem)
  have aside := Int.le_antisymm (isExit.aside rival rivals.mem ahead)
    (rivals.aside exit isExit.mem ahead.symm)
  exact Codel.eq_of_along direction chooser ahead aside

theorem IsExit.perm (isExit : IsExit listed direction chooser exit) (perm : other.Perm listed) :
    IsExit other direction chooser exit where
  mem := perm.mem_iff.2 isExit.mem
  ahead codel member := isExit.ahead codel (perm.mem_iff.1 member)
  aside codel member := isExit.aside codel (perm.mem_iff.1 member)

/-- Beyond the exit nothing is listed. -/
theorem IsExit.next_notMem (isExit : IsExit listed direction chooser exit) :
    exit.next direction ∉ listed := by
  intro member
  have ahead := isExit.ahead _ member
  rw [Codel.along_next] at ahead
  omega

end IsExit

namespace Block

theorem reachesFurther_iff {direction side : Direction} {first second : Codel} :
    reachesFurther direction side first second = true ↔
      first.along direction < second.along direction ∨
        first.along direction = second.along direction ∧ first.along side ≤ second.along side := by
  simp [reachesFurther]

/-- Keeping the better of two codels all along a list leads to the best of them. -/
theorem foldl_reachesFurther (direction side : Direction) (first : Codel) (rest : List Codel) :
    let best := rest.foldl
      (fun best codel => if reachesFurther direction side best codel then codel else best) first
    best ∈ first :: rest ∧ ∀ codel ∈ first :: rest, reachesFurther direction side codel best := by
  induction rest generalizing first with
  | nil => simp [reachesFurther_iff]
  | cons second rest inductionHypothesis =>
      simp only [List.foldl_cons]
      by_cases further : reachesFurther direction side first second = true
      · rw [if_pos further]
        obtain ⟨mem, best⟩ := inductionHypothesis second
        refine ⟨List.mem_cons_of_mem _ mem, ?_⟩
        intro codel member
        rcases List.mem_cons.1 member with rfl | member
        · have beyond := best second List.mem_cons_self
          rw [reachesFurther_iff] at further beyond ⊢
          omega
        · exact best codel member
      · rw [if_neg further]
        obtain ⟨mem, best⟩ := inductionHypothesis first
        refine ⟨by grind, ?_⟩
        intro codel member
        have beyond := best first List.mem_cons_self
        rcases List.mem_cons.1 member with rfl | member
        · exact beyond
        · rcases List.mem_cons.1 member with rfl | member
          · rw [reachesFurther_iff] at further beyond ⊢
            omega
          · exact best codel (List.mem_cons_of_mem _ member)

theorem reachesFurther_exit {block : Block} (nonempty : block.codels ≠ []) (direction : Direction)
    (chooser : Chooser) :
    block.exit direction chooser ∈ block.codels ∧ ∀ codel ∈ block.codels,
      reachesFurther direction (chooser.absolute direction) codel (block.exit direction chooser) := by
  unfold exit
  cases listed : block.codels with
  | nil => exact (nonempty listed).elim
  | cons first rest => exact foldl_reachesFurther direction (chooser.absolute direction) first rest

theorem isExit_exit {block : Block} (nonempty : block.codels ≠ []) (direction : Direction)
    (chooser : Chooser) : IsExit block.codels direction chooser (block.exit direction chooser) := by
  obtain ⟨mem, best⟩ := reachesFurther_exit nonempty direction chooser
  refine ⟨mem, ?_, ?_⟩
  · intro codel member
    have beyond := reachesFurther_iff.1 (best codel member)
    omega
  · intro codel member equal
    have beyond := reachesFurther_iff.1 (best codel member)
    omega

theorem IsAround.isExit {block : Block} {codels : Codels} {seed : Codel}
    (isAround : block.IsAround codels seed) (direction : Direction) (chooser : Chooser) :
    IsExit block.codels direction chooser (block.exit direction chooser) := by
  have seeded : seed ∈ block.codels := (isAround.mem_iff seed).2 (.here isAround.colored)
  exact isExit_exit (List.ne_nil_of_mem seeded) direction chooser

/-- The exit does not depend on the order in which a block is listed. -/
theorem exit_eq_of_perm {block other : Block} (nonempty : block.codels ≠ [])
    (perm : other.codels.Perm block.codels) (direction : Direction) (chooser : Chooser) :
    other.exit direction chooser = block.exit direction chooser := by
  have otherNonempty : other.codels ≠ [] := fun none => nonempty (List.nil_perm.1 (none ▸ perm))
  exact ((isExit_exit nonempty direction chooser).perm perm).unique
    (isExit_exit otherNonempty direction chooser)

/-- The codel beyond the exit. -/
def beyond (block : Block) (direction : Direction) (chooser : Chooser) : Codel :=
  (block.exit direction chooser).next direction

end Block

/-- The attempt to move to a codel from a block of a color and a size. -/
def attempt (codels : Codels) (color : Color) (size : Nat) (target : Codel) : Op :=
  match codels.get? target with
  | none | some .black => .blocked
  | some .white => .slide target
  | some next => .step target (Command.between color next) size

/-- On a block the pointer tries to move past the exit. -/
theorem decode_of_around? {codels : Codels} {state : State Registers} {hue : Hue}
    {lightness : Lightness} {block : Block}
    (colored : codels.get? state.registers.position = some (.chromatic hue lightness))
    (found : Block.around? codels state.registers.position = some block) :
    decode codels state =
      some (attempt codels (.chromatic hue lightness) block.size
        (block.beyond state.registers.dp state.registers.cc)) := by
  simp only [decode, colored, found, Option.map_some]
  rfl

/-- Where in a block the pointer stands does not matter: it leaves through the one codel of the block
that lies farthest ahead and, among those, farthest to the chooser's side. -/
theorem decode_eq_of_joined (codels : Codels) (hue : Hue) (lightness : Lightness) (p q : Codel)
    (joined : codels.Joined (.chromatic hue lightness) p q) (direction : Direction)
    (chooser : Chooser) (first second : State Registers)
    (firstAt : first.registers.position = p) (secondAt : second.registers.position = q)
    (firstHeads : first.registers.dp = direction ∧ first.registers.cc = chooser)
    (secondHeads : second.registers.dp = direction ∧ second.registers.cc = chooser) :
    decode codels first = decode codels second ∧
      ∃ block exit, Block.around? codels p = some block ∧
        (∀ codel, codel ∈ block.codels ↔ codels.Joined (.chromatic hue lightness) p codel) ∧
        exit = block.exit direction chooser ∧
        decode codels first = some (attempt codels (.chromatic hue lightness) block.size
          (exit.next direction)) ∧
        IsExit block.codels direction chooser exit ∧
        (∀ rival, IsExit block.codels direction chooser rival → rival = exit) ∧
        ∀ listed : List Codel, listed.Perm block.codels →
          Block.exit ⟨block.color, listed⟩ direction chooser = exit := by
  obtain ⟨rfl, rfl⟩ := firstHeads
  obtain ⟨sameDp, sameCc⟩ := secondHeads
  subst firstAt
  subst secondAt
  obtain ⟨block, found, colorEq⟩ := Block.exists_around? joined.colored_first
  obtain ⟨other, otherFound, _⟩ := Block.exists_around? joined.colored
  have isAround := Block.isAround_of_around? found
  have otherAround := Block.isAround_of_around? otherFound
  have isExit := isAround.isExit first.registers.dp first.registers.cc
  have nonempty : block.codels ≠ [] := List.ne_nil_of_mem isExit.mem
  have decoded := decode_of_around? joined.colored_first found
  refine ⟨?_, block, _, found, colorEq ▸ isAround.mem_iff, rfl, decoded, isExit,
    fun rival => isExit.unique, fun listed perm => Block.exit_eq_of_perm nonempty perm _ _⟩
  obtain ⟨_, perm⟩ := isAround.perm otherAround (colorEq ▸ joined)
  rw [decoded, decode_of_around? joined.colored otherFound, sameDp, sameCc, Block.beyond,
    Block.beyond, Block.exit_eq_of_perm nonempty perm, Block.size, Block.size, perm.length_eq]

theorem decode_eq_in_winding_block :
    let red := Color.chromatic 0 1
    let blue := Color.chromatic 4 1
    let codels := Codels.ofRows
      [[red, red, blue, blue], [red, blue, blue, blue], [red, red, red, blue]]
    let standing (codel : Codel) : State Registers :=
      ((machine {} codels).initial "").update fun registers => { registers with position := codel }
    codels.Joined red ⟨0, 0⟩ ⟨2, 2⟩ ∧
      decode codels (standing ⟨0, 0⟩) = decode codels (standing ⟨2, 2⟩) ∧
      decode codels (standing ⟨2, 2⟩) = some (.step ⟨3, 2⟩ (some .duplicate) 6) := by
  intro red blue codels standing
  have corner : codels.Joined red ⟨0, 0⟩ ⟨0, 0⟩ := .here (by decide +kernel)
  have below : codels.Joined red ⟨0, 0⟩ ⟨0, 2⟩ :=
    (corner.next .down (by decide +kernel)).next .down (by decide +kernel)
  have joined : codels.Joined red ⟨0, 0⟩ ⟨2, 2⟩ :=
    (below.next .right (by decide +kernel)).next .right (by decide +kernel)
  have same := decode_eq_of_joined codels 0 1 ⟨0, 0⟩ ⟨2, 2⟩ joined .right .left
    (standing ⟨0, 0⟩) (standing ⟨2, 2⟩) rfl rfl ⟨rfl, rfl⟩ ⟨rfl, rfl⟩
  exact ⟨joined, same.1, by decide +kernel⟩

/-- Only the step from a color to itself has no command. -/
theorem Command.between_eq_none_iff {hue nextHue : Hue} {lightness nextLightness : Lightness} :
    Command.between (.chromatic hue lightness) (.chromatic nextHue nextLightness) = none ↔
      Color.chromatic nextHue nextLightness = .chromatic hue lightness := by
  have entries : ∀ (hues : Hue) (lightnesses : Lightness),
      (Command.table.get hues).get lightnesses = none ↔ hues = 0 ∧ lightnesses = 0 := by decide
  have sameHue : ∀ first second : Hue, second - first = 0 ↔ second = first := by decide
  have sameLightness : ∀ first second : Lightness, second - first = 0 ↔ second = first := by decide
  change (Command.table.get (nextHue - hue)).get (nextLightness - lightness) = none ↔ _
  rw [entries, sameHue, sameLightness, Color.chromatic.injEq]

/-- A codel beside the block that had its color would be in it. -/
theorem Block.IsAround.get?_beyond_ne {block : Block} {codels : Codels} {seed : Codel}
    (isAround : block.IsAround codels seed) (direction : Direction) (chooser : Chooser) :
    block.beyond direction chooser ∉ block.codels ∧
      codels.get? (block.beyond direction chooser) ≠ some block.color := by
  have isExit := isAround.isExit direction chooser
  refine ⟨isExit.next_notMem, ?_⟩
  intro colored
  have joined := (isAround.mem_iff _).1 isExit.mem
  exact isExit.next_notMem ((isAround.mem_iff _).2 (joined.next direction colored))

theorem attempt_eq_step_iff {codels : Codels} {color : Color} {size blockSize : Nat}
    {target destination : Codel} {command : Option Command} :
    attempt codels color size target = .step destination command blockSize ↔
      destination = target ∧ blockSize = size ∧ ∃ hue lightness,
        codels.get? target = some (.chromatic hue lightness) ∧
          command = Command.between color (.chromatic hue lightness) := by
  unfold attempt
  cases colored : codels.get? target with
  | none => simp
  | some next => cases next <;> grind

/-- Steps start from blocks. -/
theorem chromatic_of_decode_eq_step {codels : Codels} {state : State Registers} {target : Codel}
    {command : Option Command} {size : Nat}
    (decoded : decode codels state = some (.step target command size)) :
    ∃ hue lightness, codels.get? state.registers.position = some (.chromatic hue lightness) := by
  unfold decode at decoded
  cases colored : codels.get? state.registers.position with
  | none => simp [colored] at decoded
  | some color =>
      cases color with
      | chromatic hue lightness => exact ⟨hue, lightness, rfl⟩
      | white => grind
      | black => simp [colored] at decoded

/-- The exit leads out of the block and into a command. From every codel of a hue and under every
heading, the codel beyond the exit is not in the block; a step, from wherever it is taken, leads to
another color and carries out a command. -/
theorem steps_carry_commands (codels : Codels) (state : State Registers) :
    (∀ hue lightness, codels.get? state.registers.position = some (.chromatic hue lightness) →
      ∃ block, Block.around? codels state.registers.position = some block ∧
        (block.exit state.registers.dp state.registers.cc).next state.registers.dp ∉
          block.codels) ∧
      ∀ target command size, decode codels state = some (.step target command size) →
        ∃ current next carried, codels.get? state.registers.position = some current ∧
          codels.get? target = some next ∧ next ≠ current ∧ command = some carried := by
  constructor
  · intro hue lightness colored
    obtain ⟨block, found, _⟩ := Block.exists_around? colored
    exact ⟨block, found, ((Block.isAround_of_around? found).get?_beyond_ne _ _).1⟩
  · intro target command size decoded
    obtain ⟨hue, lightness, colored⟩ := chromatic_of_decode_eq_step decoded
    obtain ⟨block, found, colorEq⟩ := Block.exists_around? colored
    rw [decode_of_around? colored found, Option.some.injEq, attempt_eq_step_iff] at decoded
    obtain ⟨rfl, _, nextHue, nextLightness, nextColored, rfl⟩ := decoded
    have different : Color.chromatic nextHue nextLightness ≠ .chromatic hue lightness := by
      intro same
      have beyond := ((Block.isAround_of_around? found).get?_beyond_ne
        state.registers.dp state.registers.cc).2
      rw [colorEq, ← same] at beyond
      exact beyond nextColored
    obtain ⟨carried, selected⟩ :=
      Option.ne_none_iff_exists'.1 (mt Command.between_eq_none_iff.1 different)
    exact ⟨_, _, carried, colored, nextColored, different, selected⟩

/-- From the middle of a block with two arms the pointer leaves over the end of the upper one. -/
theorem step_over_upper_arm :
    let red := Color.chromatic 0 1
    let cyan := Color.chromatic 3 1
    let codels := Codels.ofRows [[red, red, cyan], [red, cyan, cyan], [red, red, cyan]]
    let state := ((machine {} codels).initial "").update fun registers =>
      { registers with position := ⟨0, 1⟩ }
    codels.get? ⟨0, 1⟩ = some red ∧ decode codels state = some (.step ⟨2, 0⟩ (some .greater) 5) ∧
      (∃ block, Block.around? codels ⟨0, 1⟩ = some block ∧
        (block.exit .right .left).next .right ∉ block.codels) ∧
      codels.get? ⟨2, 0⟩ ≠ some red := by
  intro red cyan codels state
  have colored : codels.get? ⟨0, 1⟩ = some red := by decide +kernel
  have decoded : decode codels state = some (.step ⟨2, 0⟩ (some .greater) 5) := by decide +kernel
  obtain ⟨leaves, carries⟩ := steps_carry_commands codels state
  obtain ⟨current, next, _, here, there, different, _⟩ := carries _ _ _ decoded
  have standing : current = red := Option.some.inj (here.symm.trans colored)
  refine ⟨colored, decoded, leaves 0 1 colored, ?_⟩
  rw [there, ← standing]
  simpa using different

end Esoterica.Piet
