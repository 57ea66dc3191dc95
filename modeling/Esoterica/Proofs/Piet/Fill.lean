import Esoterica.Piet.Block
import Esoterica.Proofs.Image.Painting
import Mathlib.Data.List.Nodup
import Mathlib.Data.List.Perm.Subperm
import Mathlib.Data.Set.Card

/-!
Blocks are what they should be: the search around a codel finds, once each, the codels to which a path
of neighbours of one color leads.
-/

namespace Esoterica

theorem Direction.mem_all (direction : Direction) : direction ∈ Direction.all := by
  cases direction <;> simp [Direction.all]

namespace Piet

namespace Codels

/-- The codel lies on the rectangle. -/
def Inside (codels : Codels) (codel : Codel) : Prop :=
  0 ≤ codel.x ∧ codel.x < codels.width ∧ 0 ≤ codel.y ∧ codel.y < codels.height

/-- A path of neighbours, all of one color, leads from the first codel to the second. -/
inductive Joined (codels : Codels) (color : Color) (first : Codel) : Codel → Prop where
  | here (colored : codels.get? first = some color) : Joined codels color first first
  | next {codel : Codel} (joined : Joined codels color first codel) (direction : Direction)
      (colored : codels.get? (codel.next direction) = some color) :
      Joined codels color first (codel.next direction)

variable {codels : Codels} {color : Color} {first middle last codel other : Codel}

theorem inside_of_get? (colored : codels.get? codel = some color) : codels.Inside codel := by
  unfold get? at colored
  split at colored
  · assumption
  · cases colored

theorem index_lt (inside : codels.Inside codel) : codels.index codel < codels.colors.size := by
  obtain ⟨left, right, above, below⟩ := inside
  have column : codel.x.toNat < codels.width := by omega
  have row : codel.y.toNat < codels.height := by omega
  rw [codels.sizeEq]
  exact Image.place_lt column row

theorem get?_of_not_inside (outside : ¬ codels.Inside codel) : codels.get? codel = none :=
  if_neg outside

theorem exists_get?_of_inside (inside : codels.Inside codel) :
    ∃ color, codels.get? codel = some color := by
  have within := index_lt inside
  exact ⟨codels.colors[codels.index codel], (if_pos inside).trans (Array.getElem?_eq_getElem within)⟩

/-- Each place has a number of its own. -/
theorem index_inj (inside : codels.Inside codel) (otherInside : codels.Inside other)
    (equal : codels.index codel = codels.index other) : codel = other := by
  obtain ⟨left, right, above, below⟩ := inside
  obtain ⟨otherLeft, otherRight, otherAbove, otherBelow⟩ := otherInside
  have column : codel.x.toNat < codels.width := by omega
  have otherColumn : other.x.toNat < codels.width := by omega
  obtain ⟨columns, rows⟩ := Image.place_inj otherColumn column equal
  cases codel
  cases other
  simp only [Codel.mk.injEq]
  simp only at columns rows left otherLeft above otherAbove
  omega

/-- As many codels as there are colors, at most. -/
theorem length_le_of_nodup {listed : List Codel} (nodup : listed.Nodup)
    (inside : ∀ codel ∈ listed, codels.Inside codel) : listed.length ≤ codels.colors.size := by
  have distinct : (listed.map codels.index).Nodup :=
    List.Nodup.map_on (fun codel member other otherMember =>
      index_inj (inside codel member) (inside other otherMember)) nodup
  have within : listed.map codels.index ⊆ List.range codels.colors.size := by
    intro index indexed
    obtain ⟨codel, member, rfl⟩ := List.mem_map.1 indexed
    exact List.mem_range.2 (index_lt (inside codel member))
  simpa using (distinct.subperm within).length_le

theorem Joined.colored (joined : codels.Joined color first last) : codels.get? last = some color := by
  cases joined <;> assumption

theorem Joined.colored_first (joined : codels.Joined color first last) :
    codels.get? first = some color := by
  induction joined with
  | here colored => exact colored
  | next _ _ _ inductionHypothesis => exact inductionHypothesis

theorem Joined.trans (joined : codels.Joined color first middle)
    (further : codels.Joined color middle last) : codels.Joined color first last := by
  induction further with
  | here => exact joined
  | next _ direction colored inductionHypothesis => exact .next inductionHypothesis direction colored

end Codels

theorem Codel.next_reversed (codel : Codel) (direction : Direction) :
    (codel.next direction).next direction.reversed = codel := by
  cases codel
  cases direction <;>
    simp only [next, Direction.reversed, Direction.turned, Direction.clockwise, Direction.delta,
      Codel.mk.injEq] <;>
    omega

/-- Paths can be walked backwards. -/
theorem Codels.Joined.symm {codels : Codels} {color : Color} {first last : Codel}
    (joined : codels.Joined color first last) : codels.Joined color last first := by
  induction joined with
  | here colored => exact .here colored
  | @next codel before direction colored inductionHypothesis =>
      have back := (Joined.here colored).next direction.reversed
      rw [Codel.next_reversed] at back
      exact (back before.colored).trans inductionHypothesis

namespace Block

/-- What the search has done so far. The codels whose neighbours have been looked at are `found`. -/
structure Searching (codels : Codels) (color : Color) (seed : Codel) (frontier : Frontier)
    (found : List Codel) : Prop where
  sizeEq : frontier.seen.size = codels.colors.size
  seen_iff : ∀ codel, codels.get? codel = some color →
    (frontier.seen.getD (codels.index codel) true = true ↔ codel ∈ found ++ frontier.pending)
  nodup : (found ++ frontier.pending).Nodup
  joined : ∀ codel ∈ found ++ frontier.pending, codels.Joined color seed codel

/-- Every neighbour of a codel that could be in the block with it is listed. -/
def Surrounds (codels : Codels) (color : Color) (listed : List Codel) (codel : Codel) : Prop :=
  ∀ direction : Direction, codels.get? (codel.next direction) = some color →
    codel.next direction ∈ listed

variable {codels : Codels} {color : Color} {seed codel : Codel} {frontier : Frontier}
  {found : List Codel}

theorem meet_of_get?_ne (other : codels.get? codel ≠ some color) :
    meet codels color frontier codel = frontier := by
  unfold meet
  rw [if_neg]
  simpa [Option.any_eq_true] using other

theorem meet_of_get?_eq (colored : codels.get? codel = some color) :
    meet codels color frontier codel =
      if frontier.seen.getD (codels.index codel) true then frontier
      else ⟨frontier.seen.setIfInBounds (codels.index codel) true, codel :: frontier.pending⟩ := by
  unfold meet
  rw [if_pos]
  simp [colored]

/-- A codel that has not been met becomes pending. -/
theorem Searching.add (searching : Searching codels color seed frontier found)
    (joined : codels.Joined color seed codel) (fresh : codel ∉ found ++ frontier.pending) :
    Searching codels color seed
      ⟨frontier.seen.setIfInBounds (codels.index codel) true, codel :: frontier.pending⟩ found := by
  have shuffled : (found ++ codel :: frontier.pending).Perm (codel :: (found ++ frontier.pending)) :=
    List.perm_middle
  have inside := Codels.inside_of_get? joined.colored
  have within : codels.index codel < frontier.seen.size :=
    searching.sizeEq ▸ Codels.index_lt inside
  refine ⟨by simpa using searching.sizeEq, ?_, ?_, ?_⟩
  · intro other otherColored
    rw [shuffled.mem_iff, List.mem_cons, ← searching.seen_iff other otherColored]
    by_cases same : codels.index codel = codels.index other
    · have equal := Codels.index_inj inside (Codels.inside_of_get? otherColored) same
      subst equal
      simp [within]
    · have different : other ≠ codel := fun equal => same (by rw [equal])
      simp [Array.getD_eq_getD_getElem?, same, different]
  · exact shuffled.nodup_iff.2 (List.nodup_cons.2 ⟨fresh, searching.nodup⟩)
  · intro other member
    rcases List.mem_cons.1 (shuffled.mem_iff.1 member) with rfl | old
    · exact joined
    · exact searching.joined other old

/-- Meeting a codel makes it pending, unless it has been met or has another color. -/
theorem Searching.meet (searching : Searching codels color seed frontier found)
    (joined : codels.get? codel = some color → codels.Joined color seed codel) :
    Searching codels color seed (meet codels color frontier codel) found ∧
      frontier.pending ⊆ (Block.meet codels color frontier codel).pending ∧
      (codels.get? codel = some color →
        codel ∈ found ++ (Block.meet codels color frontier codel).pending) := by
  by_cases colored : codels.get? codel = some color
  · rw [meet_of_get?_eq colored]
    have seen_iff := searching.seen_iff codel colored
    by_cases seen : frontier.seen.getD (codels.index codel) true = true
    · rw [if_pos seen]
      exact ⟨searching, fun _ member => member, fun _ => seen_iff.1 seen⟩
    · rw [if_neg seen]
      have fresh : codel ∉ found ++ frontier.pending := fun member => seen (seen_iff.2 member)
      exact ⟨searching.add (joined colored) fresh, List.subset_cons_self _ _, fun _ => by simp⟩
  · rw [meet_of_get?_ne colored]
    exact ⟨searching, fun _ member => member, fun contrary => (colored contrary).elim⟩

/-- Going through some neighbours of a codel in the block, the search keeps what it has. -/
theorem Searching.meetAll (directions : List Direction)
    (searching : Searching codels color seed frontier found)
    (joined : codels.Joined color seed codel) :
    let met := directions.foldl
      (fun frontier direction => Block.meet codels color frontier (codel.next direction)) frontier
    Searching codels color seed met found ∧ frontier.pending ⊆ met.pending ∧
      ∀ direction ∈ directions, codels.get? (codel.next direction) = some color →
        codel.next direction ∈ found ++ met.pending := by
  induction directions generalizing frontier with
  | nil => exact ⟨searching, fun _ member => member, by simp⟩
  | cons direction directions inductionHypothesis =>
      obtain ⟨once, kept, met⟩ := searching.meet (joined.next direction)
      obtain ⟨all, keptAll, metAll⟩ := inductionHypothesis once
      refine ⟨all, fun _ member => keptAll (kept member), ?_⟩
      intro other member colored
      rcases List.mem_cons.1 member with rfl | member
      · exact List.append_subset.2 ⟨List.subset_append_left _ _,
          fun _ member => List.mem_append_right _ (keptAll member)⟩ (met colored)
      · exact metAll other member colored

/-- Looking at the first pending codel. -/
theorem Searching.expand {pending : List Codel}
    (searching : Searching codels color seed frontier found)
    (first : frontier.pending = codel :: pending) :
    let expanded := Block.expand codels color { frontier with pending } codel
    Searching codels color seed expanded (codel :: found) ∧ pending ⊆ expanded.pending ∧
      Surrounds codels color (codel :: found ++ expanded.pending) codel := by
  have shuffled : (codel :: found ++ pending).Perm (found ++ frontier.pending) := by
    rw [first]
    exact List.perm_middle.symm
  have moved : Searching codels color seed { frontier with pending } (codel :: found) := by
    refine ⟨searching.sizeEq, ?_, shuffled.nodup_iff.2 searching.nodup, ?_⟩
    · intro other colored
      rw [shuffled.mem_iff]
      exact searching.seen_iff other colored
    · intro other member
      exact searching.joined other (shuffled.mem_iff.1 member)
  have joined : codels.Joined color seed codel := moved.joined codel (by simp)
  obtain ⟨after, kept, met⟩ := moved.meetAll Direction.all joined
  exact ⟨after, kept, fun direction => met direction (Direction.mem_all direction)⟩

/-- The search is over: with each listed codel, all that could be in the block with it is listed. -/
structure Searched (codels : Codels) (color : Color) (seed : Codel) (listed : List Codel) : Prop where
  nodup : listed.Nodup
  joined : ∀ codel ∈ listed, codels.Joined color seed codel
  surrounds : ∀ codel ∈ listed, Surrounds codels color listed codel

theorem Searching.searched (searching : Searching codels color seed frontier found)
    (surrounds : ∀ codel ∈ found, Surrounds codels color (found ++ frontier.pending) codel)
    (nonePending : frontier.pending = []) : Searched codels color seed found := by
  have nodup := searching.nodup
  have joined := searching.joined
  rw [nonePending, List.append_nil] at nodup joined surrounds
  exact ⟨nodup, joined, surrounds⟩

/-- The search without a bound on its rounds, which goes on as long as a codel is pending, comes to an
end with these codels. -/
inductive Drains (codels : Codels) (color : Color) : Frontier → List Codel → List Codel → Prop where
  | done {frontier : Frontier} {found : List Codel} (nonePending : frontier.pending = []) :
      Drains codels color frontier found found
  | round {frontier : Frontier} {found pending listed : List Codel} {codel : Codel}
      (first : frontier.pending = codel :: pending)
      (later : Drains codels color (expand codels color { frontier with pending } codel)
        (codel :: found) listed) :
      Drains codels color frontier found listed

/-- There are rounds enough: with none left, every codel of the rectangle would have been found. -/
theorem Searching.drains (searching : Searching codels color seed frontier found) (rounds : Nat)
    (enough : codels.colors.size ≤ found.length + rounds) :
    Drains codels color frontier found (grow codels color rounds frontier found) := by
  -- Each round finds one codel more, and all that are found or pending fit into the rectangle.
  induction rounds generalizing frontier found with
  | zero =>
      have fits := Codels.length_le_of_nodup searching.nodup fun codel member =>
        Codels.inside_of_get? (searching.joined codel member).colored
      rw [List.length_append] at fits
      exact .done (List.eq_nil_of_length_eq_zero (by omega))
  | succ rounds inductionHypothesis =>
      cases pending : frontier.pending with
      | nil =>
          simp only [Block.grow, pending]
          exact .done pending
      | cons codel rest =>
          simp only [Block.grow, pending]
          refine .round pending (inductionHypothesis (searching.expand pending).1 ?_)
          simp only [List.length_cons]
          omega

/-- When the search comes to an end, all that it has met is listed. -/
theorem Drains.searched {listed : List Codel} (drains : Drains codels color frontier found listed)
    (searching : Searching codels color seed frontier found)
    (surrounds : ∀ codel ∈ found, Surrounds codels color (found ++ frontier.pending) codel) :
    Searched codels color seed listed ∧ found ++ frontier.pending ⊆ listed := by
  induction drains with
  | done nonePending => exact ⟨searching.searched surrounds nonePending, by simp [nonePending]⟩
  | @round frontier found rest listed codel first later inductionHypothesis =>
      obtain ⟨expanded, kept, surrounded⟩ := searching.expand first
      rw [first] at surrounds ⊢
      generalize Block.expand codels color { frontier with pending := rest } codel = next at *
      have keptAll : found ++ codel :: rest ⊆ codel :: found ++ next.pending := by
        intro other member
        rcases List.mem_cons.1 (List.perm_middle.mem_iff.1 member) with rfl | member
        · simp
        · rcases List.mem_append.1 member with old | old
          · simp [old]
          · simp [kept old]
      obtain ⟨searched, included⟩ := inductionHypothesis expanded (by
        intro other member
        rcases List.mem_cons.1 member with rfl | member
        · exact surrounded
        · intro direction colored
          exact keptAll (surrounds other member direction colored))
      exact ⟨searched, fun _ member => included (keptAll member)⟩

/-- The search lists exactly the codels to which a path leads from one that it lists. -/
theorem Searched.mem_iff {listed : List Codel} (searched : Searched codels color seed listed)
    (seeded : seed ∈ listed) : codel ∈ listed ↔ codels.Joined color seed codel := by
  constructor
  · exact searched.joined codel
  · intro joined
    induction joined with
    | here => exact seeded
    | next _ direction colored inductionHypothesis =>
        exact searched.surrounds _ inductionHypothesis direction colored

/-- The block lists, once each, the codels to which a path of its color leads from the seed. -/
structure IsAround (block : Block) (codels : Codels) (seed : Codel) : Prop where
  colored : codels.get? seed = some block.color
  nodup : block.codels.Nodup
  mem_iff : ∀ codel, codel ∈ block.codels ↔ codels.Joined block.color seed codel

/-- Before anything is met. -/
theorem searching_untouched :
    Searching codels color seed ⟨Array.replicate codels.colors.size false, []⟩ [] := by
  refine ⟨by simp, ?_, by simp, by simp⟩
  intro codel colored
  have within := Codels.index_lt (Codels.inside_of_get? colored)
  simp [within]

/-- What has been met before the first round. -/
def opening (codels : Codels) (color : Color) (seed : Codel) : Frontier :=
  meet codels color ⟨Array.replicate codels.colors.size false, []⟩ seed

theorem searching_opening (colored : codels.get? seed = some color) :
    Searching codels color seed (opening codels color seed) [] ∧
      seed ∈ (opening codels color seed).pending := by
  obtain ⟨searching, _, met⟩ := searching_untouched.meet fun _ => Codels.Joined.here colored
  exact ⟨searching, met colored⟩

theorem drains_of_around? {block : Block} (found : around? codels seed = some block) :
    codels.get? seed = some block.color ∧
      Drains codels block.color (opening codels block.color seed) [] block.codels := by
  obtain ⟨color, colored, rfl⟩ := Option.map_eq_some_iff.1 found
  exact ⟨colored, (searching_opening colored).1.drains codels.colors.size (by simp)⟩

theorem isAround_of_around? {block : Block} (found : around? codels seed = some block) :
    block.IsAround codels seed := by
  obtain ⟨colored, drains⟩ := drains_of_around? found
  obtain ⟨searching, pending⟩ := searching_opening colored
  obtain ⟨searched, included⟩ := drains.searched searching (by simp)
  exact ⟨colored, searched.nodup, fun codel => searched.mem_iff (included pending)⟩

theorem exists_around? (colored : codels.get? seed = some color) :
    ∃ block, around? codels seed = some block ∧ block.color = color := by
  simp [around?, colored]

/-- From wherever in a block the search starts, it lists the same codels. -/
theorem IsAround.perm {block other : Block} {start : Codel} (isAround : block.IsAround codels seed)
    (otherAround : other.IsAround codels start)
    (joined : codels.Joined block.color seed start) :
    other.color = block.color ∧ other.codels.Perm block.codels := by
  have sameColor : other.color = block.color := by
    have colored := otherAround.colored.symm.trans joined.colored
    exact Option.some.inj colored
  refine ⟨sameColor, (List.perm_ext_iff_of_nodup otherAround.nodup isAround.nodup).2 ?_⟩
  intro codel
  rw [otherAround.mem_iff, isAround.mem_iff, sameColor]
  exact ⟨joined.trans, joined.symm.trans⟩

theorem IsAround.encard {block : Block} (isAround : block.IsAround codels seed) :
    Set.encard {codel | codels.Joined block.color seed codel} = block.size := by
  have listed : {codel | codels.Joined block.color seed codel} =
      (block.codels.toFinset : Set Codel) := by
    ext codel
    simp [isAround.mem_iff]
  rw [listed, Set.encard_coe_eq_coe_finsetCard, List.toFinset_card_of_nodup isAround.nodup, size]

/-- Flood filling is exact. It fails only outside the rectangle. From a codel of the rectangle the
search comes to an end by itself, with no bound on its rounds, and it lists, once each, the codels to
which steps to neighbours of the seed's color lead; their number is the size of the block. -/
theorem fills_exactly_component (codels : Codels) (seed : Codel) :
    (around? codels seed = none ↔ ¬ codels.Inside seed) ∧
      (codels.Inside seed → ∃ block, around? codels seed = some block ∧
        codels.get? seed = some block.color ∧
        Drains codels block.color (opening codels block.color seed) [] block.codels ∧
        block.codels.Nodup ∧
        (∀ codel, codel ∈ block.codels ↔ codels.Joined block.color seed codel) ∧
        Set.encard {codel | codels.Joined block.color seed codel} = block.size) := by
  have filled : codels.Inside seed → ∃ block, around? codels seed = some block := by
    intro inside
    obtain ⟨color, colored⟩ := Codels.exists_get?_of_inside inside
    obtain ⟨block, found, _⟩ := exists_around? colored
    exact ⟨block, found⟩
  refine ⟨⟨?_, ?_⟩, ?_⟩
  · intro none inside
    obtain ⟨block, found⟩ := filled inside
    rw [none] at found
    cases found
  · intro outside
    rw [around?, Codels.get?_of_not_inside outside, Option.map_none]
  · intro inside
    obtain ⟨block, found⟩ := filled inside
    obtain ⟨colored, drains⟩ := drains_of_around? found
    have isAround := isAround_of_around? found
    exact ⟨block, found, colored, drains, isAround.nodup, isAround.mem_iff, isAround.encard⟩

/-- A codel of the same color that touches the block only at corners is not in it. -/
theorem fills_component_around_corner :
    let red := Color.chromatic 0 1
    let blue := Color.chromatic 4 1
    let codels := Codels.ofRows [[red, red, blue], [red, blue, red], [red, red, blue]]
    codels.Inside ⟨0, 1⟩ ∧ codels.get? ⟨2, 1⟩ = some red ∧
      ∃ block, around? codels ⟨0, 1⟩ = some block ∧ block.color = red ∧
        ¬ codels.Joined red ⟨0, 1⟩ ⟨2, 1⟩ ∧
        Set.encard {codel | codels.Joined red ⟨0, 1⟩ codel} = 5 := by
  intro red blue codels
  have inside : codels.Inside ⟨0, 1⟩ := by unfold Codels.Inside; decide
  obtain ⟨block, found, colored, _, _, listed, size⟩ :=
    (fills_exactly_component codels ⟨0, 1⟩).2 inside
  have red_seed : codels.get? ⟨0, 1⟩ = some red := by decide +kernel
  have red_block : block.color = red := Option.some.inj (colored.symm.trans red_seed)
  have five : (around? codels ⟨0, 1⟩).map Block.codels =
      some [⟨1, 2⟩, ⟨0, 2⟩, ⟨1, 0⟩, ⟨0, 0⟩, ⟨0, 1⟩] := by decide +kernel
  rw [found, Option.map_some, Option.some.injEq] at five
  rw [red_block] at listed size
  refine ⟨inside, by decide +kernel, block, found, red_block, ?_, ?_⟩
  · rw [← listed, five]
    decide
  · rw [size, Block.size, five]
    rfl

end Block

end Piet

end Esoterica
