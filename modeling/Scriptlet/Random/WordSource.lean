import Scriptlet.Random.KeyStream

/-!
# Sources of random words

A source of random words has some 64-bit words ready, then those of a key stream if it has one, and
then zeros for ever. So a source has only finitely many words that are not zero.

* `WordSource.next` takes a word.
* `WordSource.left` bounds the number of words before the zeros: `next_eq_zero_or_left_lt`.

A generator of some other kind need not end in zeros, but a run on it is a run on a source of
this one whenever its draws end. Such a run makes finitely many draws, and each of them takes
finitely many words; let `words` be all of them in order. A draw decides by `accepts` and
`choice`, which look at the word just taken and at nothing behind it. So on `scripted words`
every draw takes the same words with the same result, and the zeros behind them are never
reached. What is said of all runs on a `WordSource` is therefore said of these runs as well; and
on a source of this kind no run is lost, since the word zero is always accepted.
-/

namespace Scriptlet.Random

/-- A source of 64-bit words: those in `ready`, then those of `stream`, then zeros. -/
structure WordSource where
  /-- The words that come next. -/
  ready : List UInt64
  /-- Where further words come from, if there are any. -/
  stream : Option KeyStream

namespace WordSource

/-- The source with the given words, and then zeros. -/
def scripted (words : List UInt64) : WordSource := ⟨words, none⟩

/-- The source that `seed` determines, by `KeyStream.ofSeed`. -/
def seeded (seed : UInt64) : WordSource := ⟨[], some (.ofSeed seed)⟩

/-- The source with the blocks of a key from the first one on. The key is given as `bytes`,
four for each of its words with the lowest first. -/
def keyed (bytes : ByteArray) : WordSource :=
  let byte (i : Nat) : UInt32 := (bytes.data[i]?.getD 0).toUInt32
  let word (i : Nat) : UInt32 :=
    byte i ||| byte (i + 1) <<< 8 ||| byte (i + 2) <<< 16 ||| byte (i + 3) <<< 24
  ⟨[], some ⟨.ofFn fun i => word (4 * i), 0⟩⟩

/-- The next word, and the source after it. -/
def next (source : WordSource) : UInt64 × WordSource :=
  match source.ready with
  | word :: ready => (word, ⟨ready, source.stream⟩)
  | [] =>
    match source.stream with
    | none => (0, source)
    | some stream =>
      if stream.block < KeyStream.blockCount then
        (stream.words.head?.getD 0, ⟨stream.words.tail, some ⟨stream.key, stream.block + 1⟩⟩)
      else (0, source)

/-- How many words are left before the zeros. -/
def left (source : WordSource) : Nat :=
  source.ready.length +
    match source.stream with
    | none => 0
    | some stream => 8 * (KeyStream.blockCount - stream.block)

/-- A word that is not zero was one of those that `left` counts. So a loop that ends on the
word zero ends on every source. -/
theorem next_eq_zero_or_left_lt (source : WordSource) :
    source.next.1 = 0 ∨ source.next.2.left < source.left := by
  obtain ⟨ready, stream⟩ := source
  cases ready with
  | cons word ready => right; simp [next, left]
  | nil =>
    cases stream with
    | none => left; rfl
    | some stream =>
      -- A new block has eight words, one of which is taken.
      by_cases h : stream.block < KeyStream.blockCount
      · right
        have hwords := stream.length_words
        simp only [next, left, h, if_true, List.length_tail, List.length_nil]
        omega
      · left; simp [next, h]

end WordSource

end Scriptlet.Random
