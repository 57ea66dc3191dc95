import Esoterica.Plane.Direction

/-!
Random directions, from a seed or as a host throws them. A seed is stretched to a key of eight words,
the key gives a stream of blocks by the ChaCha cipher with twelve rounds, and two words of the stream
make a number. A number counts unless its bit 61 is set; its two high bits choose the direction.
-/

namespace Esoterica.Befunge

/-- Dice are those of a seed, of whose stream some numbers have been used, or any others, as the
directions that they are going to show. A run rolls its dice finitely often, so that there are directions
for every host and every run. -/
inductive Dice where
  | seeded (seed : UInt64) (used : Nat)
  | thrown (directions : List Direction)
deriving DecidableEq, Repr

namespace Dice

/-- The words of a key, each from a further state of a linear generator. -/
def keyWords (state : UInt64) : Nat → List UInt32
  | 0 => []
  | count + 1 =>
    let state := state * 6364136223846793005 + 11634580027462260723
    let mixed := (((state >>> 18) ^^^ state) >>> 27).toUInt32
    let turns := (state >>> 59).toUInt32
    ((mixed >>> turns) ||| (mixed <<< (32 - turns))) :: keyWords state count

/-- The sixteen words that a block is made of. -/
abbrev Block := Vector UInt32 16

/-- A word turned to the left. -/
def rotateLeft (word count : UInt32) : UInt32 :=
  (word <<< count) ||| (word >>> (32 - count))

/-- Mixes four words of a block. -/
def quarterRound (block : Block) (i j k l : Fin 16) : Block :=
  let a := block[i]
  let b := block[j]
  let c := block[k]
  let d := block[l]
  let a := a + b
  let d := rotateLeft (d ^^^ a) 16
  let c := c + d
  let b := rotateLeft (b ^^^ c) 12
  let a := a + b
  let d := rotateLeft (d ^^^ a) 8
  let c := c + d
  let b := rotateLeft (b ^^^ c) 7
  (((block.set i a).set j b).set k c).set l d

/-- Mixes the columns of a block, then its diagonals. -/
def doubleRound (block : Block) : Block :=
  let block := quarterRound block 0 4 8 12
  let block := quarterRound block 1 5 9 13
  let block := quarterRound block 2 6 10 14
  let block := quarterRound block 3 7 11 15
  let block := quarterRound block 0 5 10 15
  let block := quarterRound block 1 6 11 12
  let block := quarterRound block 2 7 8 13
  quarterRound block 3 4 9 14

/-- Double rounds one after another. -/
def mix (block : Block) : Nat → Block
  | 0 => block
  | rounds + 1 => mix (doubleRound block) rounds

/-- The words with which every block starts. -/
def constants : List UInt32 :=
  [0x61707865, 0x3320646e, 0x79622d32, 0x6b206574]

/-- The block before it is mixed: the constants, the key, and the number of the block. -/
def plainBlock (seed : UInt64) (counter : UInt64) : Block :=
  let words := constants ++ keyWords seed 8 ++
    [counter.toUInt32, (counter >>> 32).toUInt32, 0, 0]
  Vector.ofFn fun index => (words[index.val]?).getD 0

/-- A block of the stream. -/
def block (seed : UInt64) (counter : UInt64) : Block :=
  let plain := plainBlock seed counter
  let mixed := mix plain 6
  Vector.ofFn fun index => mixed[index] + plain[index]

/-- A number of the stream; a block holds eight. -/
def number (seed : UInt64) (index : Nat) : UInt64 :=
  let block := block seed (.ofNat (index / 8))
  let low := (block[2 * (index % 8)]?).getD 0
  let high := (block[2 * (index % 8) + 1]?).getD 0
  low.toUInt64 + (high.toUInt64 <<< 32)

/-- The direction that the two high bits of a number stand for. -/
def toDirection (value : UInt64) : Direction :=
  Direction.right.turned (value >>> 62).toNat

/-- Uses up numbers until one counts, at most as many as allowed. -/
def search (seed : UInt64) (used : Nat) : Nat → Direction × Dice
  | 0 => (.right, .seeded seed used)
  | tries + 1 =>
    let value := number seed used
    if (value >>> 61) &&& 1 = 1 then search seed (used + 1) tries
    else (toDirection value, .seeded seed (used + 1))

/-- Every other number counts, so that this many fail all at once for no seed in practice. -/
def patience : Nat := 4096

/-- The next random direction. -/
def roll : Dice → Direction × Dice
  | seeded seed used => search seed used patience
  | thrown [] => (.right, thrown [])
  | thrown (direction :: others) => (direction, thrown others)

/-- The dice of a seed. Without one, they are a choice of the host; these are one that it has. -/
def ofSeed (seed : Option UInt64) : Dice :=
  seeded (seed.getD 0) 0

end Dice

end Esoterica.Befunge
