/-!
# Key streams

A key stream is the output of the ChaCha block function with twelve rounds: a key of eight 32-bit
words and a 64-bit block counter give a block of sixteen 32-bit words, read as eight 64-bit words. A
stream has as many blocks as the counter has values.

* `KeyStream.ofSeed` expands a 64-bit seed to a key.
* `KeyStream.words` is the block that comes next.
-/

namespace Scriptlet.Random

/-- The words of a state or a block. -/
abbrev Block := Vector UInt32 16

/-- Rotates a 32-bit word to the left by `amount` bits. -/
def rotateLeft (x amount : UInt32) : UInt32 :=
  (x <<< amount) ||| (x >>> (32 - amount))

/-- One quarter round, on the words at the positions `i`, `j`, `k` and `l` of `state`. -/
def quarterRound (i j k l : Fin 16) (state : Block) : Block :=
  let a := state[i]
  let b := state[j]
  let c := state[k]
  let d := state[l]
  let a := a + b
  let d := rotateLeft (d ^^^ a) 16
  let c := c + d
  let b := rotateLeft (b ^^^ c) 12
  let a := a + b
  let d := rotateLeft (d ^^^ a) 8
  let c := c + d
  let b := rotateLeft (b ^^^ c) 7
  (((state.set i a).set j b).set k c).set l d

/-- A round on the columns and a round on the diagonals, each made of four `quarterRound`s. -/
def doubleRound (state : Block) : Block :=
  let columns :=
    (quarterRound 3 7 11 15 ∘ quarterRound 2 6 10 14 ∘ quarterRound 1 5 9 13 ∘
      quarterRound 0 4 8 12) state
  (quarterRound 3 4 9 14 ∘ quarterRound 2 7 8 13 ∘ quarterRound 1 6 11 12 ∘
    quarterRound 0 5 10 15) columns

/-- Consecutive pairs of 32-bit words as 64-bit words, the lower half first. -/
def pairWords : List UInt32 → List UInt64
  | low :: high :: rest => (high.toUInt64 <<< 32 ||| low.toUInt64) :: pairWords rest
  | _ => []

theorem length_pairWords : ∀ words : List UInt32, (pairWords words).length = words.length / 2
  | low :: high :: rest => by simp [pairWords, length_pairWords rest]; omega
  | [_] => by simp [pairWords]
  | [] => by simp [pairWords]

/-- A key stream at one of its blocks. -/
structure KeyStream where
  /-- The key, eight words of 32 bits. -/
  key : Vector UInt32 8
  /-- The number of the next block, below `blockCount` while there is one. -/
  block : Nat

namespace KeyStream

/-- The number of blocks of a stream: as many as the 64-bit counter has values. -/
def blockCount : Nat := UInt64.size

/-- The state that the block function starts from: four constants, `stream.key`, the counter
`stream.block` with its lower half first, and two zero words. -/
def initialState (stream : KeyStream) : Block :=
  (#v[0x61707865, 0x3320646e, 0x79622d32, 0x6b206574] : Vector UInt32 4) ++ stream.key ++
    (#v[UInt32.ofNat stream.block, UInt32.ofNat (stream.block / UInt32.size), 0, 0] :
      Vector UInt32 4)

/-- The words of the next block: twelve rounds on `initialState`, and the state added to their
result. -/
def words (stream : KeyStream) : List UInt64 :=
  let mixed := Nat.repeat doubleRound 6 stream.initialState
  pairWords (Vector.zipWith (· + ·) mixed stream.initialState).toList

theorem length_words (stream : KeyStream) : stream.words.length = 8 := by
  simp [words, length_pairWords]

/-- The recurrence that turns a seed into the states from which `seedWord` takes the words of
its key. -/
def nextSeedState (state : UInt64) : UInt64 :=
  state * 6364136223846793005 + 11634580027462260723

/-- The word of a key that `state` gives: some of its upper bits, rotated to the right by the
five topmost bits. -/
def seedWord (state : UInt64) : UInt32 :=
  let x := (((state >>> 18) ^^^ state) >>> 27).toUInt32
  let amount := (state >>> 59).toUInt32
  (x >>> amount) ||| (x <<< (32 - amount))

/-- The state of the recurrence `nextSeedState` after `steps` steps from `seed`. -/
def seedState (seed : UInt64) (steps : Nat) : UInt64 :=
  Nat.repeat nextSeedState steps seed

/-- The key that `seed` expands to. -/
def keyOfSeed (seed : UInt64) : Vector UInt32 8 :=
  Vector.ofFn fun i => seedWord (seedState seed (i + 1))

/-- The key stream of `seed`, at its first block. -/
def ofSeed (seed : UInt64) : KeyStream := ⟨keyOfSeed seed, 0⟩

end KeyStream

end Scriptlet.Random
