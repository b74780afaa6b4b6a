import Mathlib.Logic.Function.Iterate
import Scriptlet.Proofs.Evaluation.Equations
import Scriptlet.Proofs.Random.Acceptance

/-!
# Random integers

A statement that binds a name to a random integer takes words from their source until one is
accepted, and the accepted word decides on the integer. Words are taken by nothing else: a bound
that is negative or no integer is a fault in front of the first word.

* `WordSource.word` and `WordSource.after` are the words that a source gives and what it is behind
  them.
* `FirstAccepted` says at which word a draw ends, and `exists_firstAccepted` that it ends there.
* `execute_random_draws_evenly` is the result.
-/

namespace Scriptlet

namespace Random

/-! ## Words in a row -/

namespace WordSource

/-- The source behind its first `n` words. -/
def after (source : WordSource) (n : Nat) : WordSource :=
  (fun source => source.next.2)^[n] source

/-- The word that `source` gives behind its first `n` words. -/
def word (source : WordSource) (n : Nat) : UInt64 :=
  (source.after n).next.1

theorem after_scripted (words : List UInt64) (n : Nat) :
    (scripted words).after n = scripted (words.drop n) := by
  induction n generalizing words with
  | zero => rfl
  | succ n ih =>
    cases words with
    | nil => exact (ih []).trans (by rw [List.drop_nil, List.drop_nil])
    | cons word words => exact ih words

/-- A scripted source gives its words in order, and behind them zeros. -/
theorem word_scripted (words : List UInt64) (n : Nat) :
    (scripted words).word n = words.getD n 0 := by
  have hnext (words : List UInt64) : (scripted words).next.1 = words.head?.getD 0 := by
    cases words <;> rfl
  rw [word, after_scripted, hnext, List.head?_drop, List.getD_eq_getElem?_getD]

end WordSource

/-! ## Draws -/

/-- The word behind the first `n` words of `source` is the first one that `accepts` a draw of
an integer between zero and `bound`. -/
structure FirstAccepted (bound : Nat) (source : WordSource) (n : Nat) : Prop where
  rejected : ∀ i < n, accepts (bound + 1) (source.word i) = false
  accepted : accepts (bound + 1) (source.word n) = true

section

variable {bound : Nat} {source : WordSource}

theorem FirstAccepted.unique {n m : Nat} (h : FirstAccepted bound source n)
    (h' : FirstAccepted bound source m) : n = m := by
  have hle {n m : Nat} (h : FirstAccepted bound source n) (h' : FirstAccepted bound source m) :
      m ≤ n := by
    by_contra hlt
    have hrejected := h'.rejected n (Nat.lt_of_not_le hlt)
    exact absurd (h.accepted.symm.trans hrejected) (by decide)
  exact Nat.le_antisymm (hle h' h) (hle h h')

/-- In a `scripted` source the zero behind the words is accepted at the latest. -/
theorem FirstAccepted.le_length {words : List UInt64} {n : Nat}
    (h : FirstAccepted bound (.scripted words) n) : n ≤ words.length := by
  by_contra hlt
  have hzero := h.rejected words.length (Nat.lt_of_not_le hlt)
  rw [WordSource.word_scripted, List.getD_eq_getElem?_getD, List.getElem?_length, Option.getD_none,
    accepts_zero] at hzero
  cases hzero

/-- A draw ends: it takes the words up to the one that is `FirstAccepted`, and this one
decides. By the recursion of `draw` on `WordSource.left`. -/
theorem exists_firstAccepted (bound : Nat) (source : WordSource) :
    ∃ n, FirstAccepted bound source n ∧
      draw bound source = (choice (bound + 1) (source.word n), source.after (n + 1)) := by
  -- The induction is along the draw, which is known to end: a rejected word counts as one more word
  -- in front of the draw from what is left of the source.
  fun_induction draw bound source with
  | case1 source haccepted => exact ⟨0, ⟨fun i hi => absurd hi i.not_lt_zero, haccepted⟩, rfl⟩
  | case2 source hrefused ih =>
    obtain ⟨n, hfirst, hdraw⟩ := ih
    refine ⟨n + 1, ⟨fun i hi => ?_, hfirst.accepted⟩, hdraw⟩
    cases i with
    | zero => exact Bool.eq_false_iff.mpr hrefused
    | succ i => exact hfirst.rejected i (Nat.lt_of_succ_lt_succ hi)

end

end Random

/-! ## Statements -/

open Evaluation Scriptlet.Random

/-- Once `bound` has a value, the integer is drawn and `name` is bound to it. -/
theorem execute_random_of_ok {name : String} {bound : Expression} {line : Nat} {machine : Machine}
    {value : Value} {between : Machine}
    (h : bound.evaluate (machine.starting (.random name bound line)) = .ok value between) :
    (Statement.random name bound line).execute machine =
      Evaluation.within (.random name bound line) (drawBelow value line >>= bindName name)
        between := by
  rw [execute_apply, effect_random, Evaluation.within, bind_of_ok h]
  rfl

/-- **Random integers are between zero and their bound, and none of them is favoured.** Let
the expression `bound` have the value `value`. If this is no integer, or a negative one, this
is the fault, and the words are those that the evaluation of the bound has left. Otherwise
words are taken up to the one that is `FirstAccepted`, which is at the latest the zero behind
the words of a scripted source; its `choice` is the integer to which `name` is bound. Among
all words those decide evenly, by `DecidesEvenly`, up to and including the greatest integer of
the language as the bound. -/
theorem execute_random_draws_evenly {name : String} {bound : Expression} {line : Nat}
    {machine : Machine} {value : Value} {between : Machine}
    (hvalue : bound.evaluate (machine.starting (.random name bound line)) = .ok value between) :
    let statement := Statement.random name bound line
    ((∀ b, value ≠ .integer b) →
      statement.execute machine =
        .error ⟨.boundKind value.kind, line, some statement.description⟩ between) ∧
      (∀ b : Int, value = .integer b → b < 0 →
        statement.execute machine =
          .error ⟨.negativeBound b, line, some statement.description⟩ between) ∧
      ∀ b : Nat, value = .integer b → (b : Int) ≤ Integer.greatest →
        DecidesEvenly b ∧
          ∃ n, FirstAccepted b between.words n ∧
            (∀ words, between.words = .scripted words → n ≤ words.length) ∧
            choice (b + 1) (between.words.word n) ≤ b ∧
            let drawn := Value.integer (choice (b + 1) (between.words.word n))
            let behind := { between with words := between.words.after (n + 1) }
            statement.execute machine = .ok drawn (behind.bind name drawn) := by
  intro statement
  have hexecute := execute_random_of_ok hvalue
  refine ⟨fun hkind => ?_, fun b hb hneg => ?_, fun b hb hle => ⟨?_, ?_⟩⟩
  · rw [hexecute]
    cases value with
    | integer b => exact absurd rfl (hkind b)
    | _ => rfl
  · subst hb
    have hfail : drawBelow (.integer b) line = fail (.negativeBound b) line :=
      if_neg (Int.not_le.mpr hneg)
    rw [hexecute, hfail]
    rfl
  -- The bound is small enough for the products of the draw to be exact.
  · apply decidesEvenly
    rw [Integer.greatest] at hle
    omega
  · subst hb
    -- The draw takes the words up to the first that is accepted, which `choice` decides on.
    obtain ⟨n, hfirst, hdraw⟩ := exists_firstAccepted b between.words
    refine ⟨n, hfirst, fun words hwords => ?_, choice_le b _, ?_⟩
    · rw [hwords] at hfirst
      exact hfirst.le_length
    · have hdrawn := drawBelow_of_nonneg (Int.natCast_nonneg b) line between
      rw [Int.toNat_natCast, hdraw] at hdrawn
      rw [hexecute, Evaluation.within, bind_of_ok hdrawn]
      rfl

/-- A machine with two random words, on which an integer between zero and the greatest integer
is to be drawn. -/
def Machine.drawing : Machine :=
  Machine.starting (.fresh .unlimited [] (.scripted [1, 2]) 0)
    (.random "x" (.literal Integer.greatest) 1)

/-- On `Machine.drawing` the word one is rejected, and the word two decides on the integer
one. -/
theorem drawing_takes_two_words :
    DecidesEvenly (2 ^ 63 - 1) ∧
      (Statement.random "x" (.literal Integer.greatest) 1).execute
          (.fresh .unlimited [] (.scripted [1, 2]) 0) =
        .ok (.integer 1)
          ({ Machine.drawing with words := .scripted [] }.bind "x" (.integer 1)) := by
  have hvalue : (Expression.literal Integer.greatest).evaluate .drawing =
    .ok (.integer Integer.greatest) .drawing := rfl
  obtain ⟨-, -, hdraws⟩ := execute_random_draws_evenly hvalue
  obtain ⟨hevenly, n, hfirst, -, -, hexecute⟩ := hdraws (2 ^ 63 - 1) rfl (by decide)
  have hsecond : FirstAccepted (2 ^ 63 - 1) (.scripted [1, 2]) 1 := by
    refine ⟨fun i hi => ?_, by decide +kernel⟩
    obtain rfl : i = 0 := Nat.lt_one_iff.mp hi
    decide +kernel
  obtain rfl := hfirst.unique hsecond
  exact ⟨hevenly, hexecute⟩

end Scriptlet
