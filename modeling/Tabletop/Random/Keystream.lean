/-!
# The keystream behind the dice

Random numbers are words of the ChaCha stream cipher with eight rounds, under a key that is
stretched from a 64-bit seed.  The stream is a function from positions to words, so a position is
all that has to be remembered between draws.

A block is sixteen words: four constants, eight words of key, the block number in two words and
two words of zero.  Sixteen more words come out of mixing it and adding the start back.

Main definition: `Random.wordAt`.
-/

namespace Tabletop.Random

/-- Sixteen words. -/
abbrev Block := Vector UInt32 16

/-- Eight words of key. -/
abbrev Key := Vector UInt32 8

/-- A word turned to the left. -/
def rotateLeft (x : UInt32) (n : UInt32) : UInt32 := (x <<< n) ||| (x >>> (32 - n))

/-! ## The key of a seed -/

/-- One step of the generator that stretches a seed: the next state of its linear recurrence. -/
def stretch (s : UInt64) : UInt64 := s * 6364136223846793005 + 11634580027462260723

/-- The word a stretched state gives: its upper bits folded, then turned by its top five bits. -/
def stretchedWord (s : UInt64) : UInt32 :=
  let x := (((s >>> 18) ^^^ s) >>> 27).toUInt32
  let turn := (s >>> 59).toUInt32
  (x >>> turn) ||| (x <<< ((32 - turn) % 32))

/-- The state after `n` steps from a seed. -/
def stretched (seed : UInt64) : Nat → UInt64
  | 0 => seed
  | n + 1 => stretch (stretched seed n)

/-- The key of a seed. -/
def keyOf (seed : UInt64) : Key := .ofFn (fun i => stretchedWord (stretched seed (i.val + 1)))

/-! ## Mixing -/

/-- Mixes four words of a block. -/
def quarterRound (b : Block) (i j k l : Fin 16) : Block :=
  let a := b[i] + b[j]
  let d := rotateLeft (b[l] ^^^ a) 16
  let c := b[k] + d
  let e := rotateLeft (b[j] ^^^ c) 12
  let a := a + e
  let d := rotateLeft (d ^^^ a) 8
  let c := c + d
  let e := rotateLeft (e ^^^ c) 7
  (((b.set i a).set j e).set k c).set l d

/-- Mixes the columns of a block, then its diagonals. -/
def doubleRound (b : Block) : Block :=
  let b := quarterRound b 0 4 8 12
  let b := quarterRound b 1 5 9 13
  let b := quarterRound b 2 6 10 14
  let b := quarterRound b 3 7 11 15
  let b := quarterRound b 0 5 10 15
  let b := quarterRound b 1 6 11 12
  let b := quarterRound b 2 7 8 13
  quarterRound b 3 4 9 14

/-- The start of block number `n`. -/
def startOf (key : Key) (n : UInt64) : Block :=
  #v[0x61707865, 0x3320646e, 0x79622d32, 0x6b206574,
    key[0], key[1], key[2], key[3], key[4], key[5], key[6], key[7],
    n.toUInt32, (n >>> 32).toUInt32, 0, 0]

/-- Block number `n` of the stream: eight rounds of mixing, then the start added word by word. -/
def blockOf (key : Key) (n : UInt64) : Block :=
  let start := startOf key n
  let mixed := doubleRound (doubleRound (doubleRound (doubleRound start)))
  Vector.zipWith (· + ·) mixed start

/-- The word at a position of the stream.  Block numbers have 64 bits, so the stream repeats after
`2 ^ 68` words. -/
def wordAt (key : Key) (position : Nat) : UInt32 :=
  (blockOf key (UInt64.ofNat (position / 16))).get ⟨position % 16, Nat.mod_lt _ (by decide)⟩

end Tabletop.Random
