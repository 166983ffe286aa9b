-- Random numbers: the ChaCha stream of twelve rounds, under a key that is
-- spread from a seed of 64 bits. The same seed gives the same numbers.

namespace LineBasic

/-- A stream of numbers and how many of them were drawn. -/
structure Generator where
  seed : UInt64
  drawn : Nat := 0
deriving DecidableEq, Inhabited

namespace Generator

/-! ## The key -/

/-- One step of the sequence that spreads a seed. -/
def spread (s : UInt64) : UInt64 := s * 6364136223846793005 + 11634580027462260723

def rotateRight (x : UInt32) (n : UInt32) : UInt32 := (x >>> n) ||| (x <<< (32 - n))

def rotateLeft (x : UInt32) (n : UInt32) : UInt32 := (x <<< n) ||| (x >>> (32 - n))

/-- The word that a step of the sequence yields. -/
def wordOf (s : UInt64) : UInt32 :=
  let x := (((s >>> 18) ^^^ s) >>> 27).toUInt32
  let n := (s >>> 59).toUInt32
  if n = 0 then x else rotateRight x n

/-- The next `n` words of the sequence. -/
def words : Nat → UInt64 → List UInt32
  | 0, _ => []
  | n + 1, s =>
    let next := spread s
    wordOf next :: words n next

def keyOf (seed : UInt64) : List UInt32 := words 8 seed

/-! ## The stream -/

abbrev Block := Vector UInt32 16

/-- Mixes four words of a block. -/
def quarterRound (b : Block) (i j k l : Fin 16) : Block :=
  let x := b[i] + b[j]
  let w := rotateLeft (b[l] ^^^ x) 16
  let z := b[k] + w
  let y := rotateLeft (b[j] ^^^ z) 12
  let x := x + y
  let w := rotateLeft (w ^^^ x) 8
  let z := z + w
  let y := rotateLeft (y ^^^ z) 7
  (((b.set i x).set j y).set k z).set l w

/-- A round down the columns and a round along the diagonals. -/
def doubleRound (b : Block) : Block :=
  let b := quarterRound b 0 4 8 12
  let b := quarterRound b 1 5 9 13
  let b := quarterRound b 2 6 10 14
  let b := quarterRound b 3 7 11 15
  let b := quarterRound b 0 5 10 15
  let b := quarterRound b 1 6 11 12
  let b := quarterRound b 2 7 8 13
  quarterRound b 3 4 9 14

/-- The four constants, the key, and the number of the block in two words. -/
def initialBlock (key : List UInt32) (number : Nat) : Block :=
  let word := fun i => key.getD i 0
  #v[0x61707865, 0x3320646e, 0x79622d32, 0x6b206574,
    word 0, word 1, word 2, word 3, word 4, word 5, word 6, word 7,
    number.toUInt32, (number >>> 32).toUInt32, 0, 0]

def mixed : Nat → Block → Block
  | 0, b => b
  | n + 1, b => mixed n (doubleRound b)

/-- Block `number` of the stream. -/
def block (key : List UInt32) (number : Nat) : Block :=
  let start := initialBlock key number
  (mixed 6 start).zipWith (· + ·) start

/-- Number `index` of the stream: two words, the lower one first. -/
def number (seed : UInt64) (index : Nat) : UInt64 :=
  let b := block (keyOf seed) (index / 8)
  have : 2 * (index % 8) + 1 < 16 := by omega
  let low := b[2 * (index % 8)]
  let high := b[2 * (index % 8) + 1]
  low.toUInt64 ||| (high.toUInt64 <<< 32)

/-! ## Draws -/

def ofSeed (seed : UInt64) : Generator := { seed }

/-- A REAL from zero up to but not including one, in steps of `2 ^ -53`. -/
def draw (g : Generator) : Float × Generator :=
  let n := (number g.seed g.drawn) >>> 11
  (n.toFloat / 9007199254740992, { g with drawn := g.drawn + 1 })

end Generator

end LineBasic
