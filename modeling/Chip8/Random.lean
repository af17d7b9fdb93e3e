import Chip8.Hex

/-! # Random bytes

A random source is an unending sequence of words together with the number of words already taken.
Taking a byte takes one whole word and yields its low byte.

A 64-bit seed selects a key stream. It is stretched to a 256-bit key by a linear congruential
generator whose output is permuted by a rotation. The key drives ChaCha with twelve rounds: a 64-bit
block counter from zero in words 12 and 13, zero in words 14 and 15, sixteen output words to a
block. Any word of the stream can be computed on its own, so a position is all there is to remember.
-/

namespace Chip8

namespace KeyStream

/-- The state of the generator that stretches a seed. -/
abbrev SeedState := UInt64

/-- The next state of the seed generator. -/
def SeedState.next (state : SeedState) : SeedState :=
  state * 6364136223846793005 + 11634580027462260723

/-- A word rotated left. -/
def rotateLeft (word count : UInt32) : UInt32 := (word <<< count) ||| (word >>> (32 - count))

/-- A word rotated right. -/
def rotateRight (word count : UInt32) : UInt32 := (word >>> count) ||| (word <<< (32 - count))

/-- The key word that a state of the seed generator stands for. -/
def SeedState.word (state : SeedState) : UInt32 :=
  let folded := (((state >>> 18) ^^^ state) >>> 27).toUInt32
  rotateRight folded (state >>> 59).toUInt32

/-- The 256 bits that select a stream. -/
structure Key where
  words : Vector UInt32 8
deriving DecidableEq

/-- The key of a seed: eight words of the seed generator, the seed itself not among them. -/
def Key.ofSeed (seed : UInt64) : Key :=
  ⟨Vector.ofFn fun i => SeedState.word (Nat.repeat SeedState.next (i.val + 1) seed)⟩

/-- The sixteen words that the rounds work on. -/
abbrev Block := Vector UInt32 16

/-- One quarter round on four of the words. -/
def Block.quarterRound (block : Block) (a b c d : Fin 16) : Block :=
  let block := block.set a (block[a] + block[b])
  let block := block.set d (rotateLeft (block[d] ^^^ block[a]) 16)
  let block := block.set c (block[c] + block[d])
  let block := block.set b (rotateLeft (block[b] ^^^ block[c]) 12)
  let block := block.set a (block[a] + block[b])
  let block := block.set d (rotateLeft (block[d] ^^^ block[a]) 8)
  let block := block.set c (block[c] + block[d])
  block.set b (rotateLeft (block[b] ^^^ block[c]) 7)

/-- One round along the columns and one along the diagonals. -/
def Block.doubleRound (block : Block) : Block :=
  let columns := (((block.quarterRound 0 4 8 12).quarterRound 1 5 9 13).quarterRound
    2 6 10 14).quarterRound 3 7 11 15
  (((columns.quarterRound 0 5 10 15).quarterRound 1 6 11 12).quarterRound
    2 7 8 13).quarterRound 3 4 9 14

/-- The words that a block starts from: the constant, the key, the counter and zeros. -/
def Block.start (key : Key) (counter : UInt64) : Block :=
  #v[0x61707865, 0x3320646e, 0x79622d32, 0x6b206574,
    key.words[0], key.words[1], key.words[2], key.words[3],
    key.words[4], key.words[5], key.words[6], key.words[7],
    counter.toUInt32, (counter >>> 32).toUInt32, 0, 0]

/-- The output words of a block: twelve rounds, then the starting words added. -/
def Block.output (key : Key) (counter : UInt64) : Block :=
  let start := Block.start key counter
  (Nat.repeat Block.doubleRound 6 start).zipWith (· + ·) start

/-- The word at a position of the stream, counted from zero. -/
def word (key : Key) (position : Nat) : UInt32 :=
  (Block.output key (UInt64.ofNat (position / 16))).get (nibble position)

end KeyStream

/-- The sequences that come with the library. Any other sequence of words is as good a source. -/
inductive WordSequence where
  /-- The words `first`, `first + increment`, and so on, modulo `2 ^ 64`. -/
  | arithmetic (first increment : UInt64)
  /-- The key stream of a key. -/
  | keyStream (key : KeyStream.Key)
deriving DecidableEq

/-- The word at a position, counted from zero. -/
def WordSequence.word : WordSequence → Nat → UInt64
  | .arithmetic first increment, position => first + UInt64.ofNat position * increment
  | .keyStream key, position => (KeyStream.word key position).toUInt64

/-- An unending sequence of words that is being used up from its start. -/
structure Random where
  /-- The word at a position, counted from zero. -/
  word : Nat → UInt64
  /-- How many words have been taken. -/
  taken : Nat

namespace Random

/-- A sequence of which nothing has been taken. -/
def ofSequence (sequence : WordSequence) : Random := ⟨sequence.word, 0⟩

/-- The source that a seed selects. -/
def ofSeed (seed : UInt64) : Random := ofSequence (.keyStream (.ofSeed seed))

/-- Takes one word and gives its low byte. -/
def next (random : Random) : UInt8 × Random :=
  ((random.word random.taken).toUInt8, { random with taken := random.taken + 1 })

end Random

end Chip8
