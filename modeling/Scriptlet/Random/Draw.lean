import Scriptlet.Random.WordSource

/-!
# Drawing an integer

A draw from the integers between zero and a bound multiplies a random word by the number of choices.
The upper half of the product is the result, unless the lower half is in the part of the words that
would favour some results; then another word is taken.

* `accepts` says for which words a draw ends.
* `draw` is the result of a draw and the source after it.
-/

namespace Scriptlet.Random

/-- How many of the upper bits of `n` are zero when it is written with 64 bits. -/
def leadingZeros (n : Nat) : Nat := 63 - n.log2

/-- Whether `word` decides a draw among `choices` integers: the lower half of the product is
below the greatest number that has 64 bits and is `choices` with zeros behind its binary
digits. -/
def accepts (choices : Nat) (word : UInt64) : Bool :=
  decide (word.toNat * choices % UInt64.size < choices <<< leadingZeros choices)

/-- The result that `word` decides on: the upper half of its product with `choices`. -/
def choice (choices : Nat) (word : UInt64) : Nat :=
  word.toNat * choices / UInt64.size

/-- The word zero decides every draw. Sources end in zeros, so `draw` ends. -/
theorem accepts_zero (bound : Nat) : accepts (bound + 1) 0 = true := by
  apply decide_eq_true
  rw [UInt64.toNat_zero, Nat.zero_mul, Nat.zero_mod, Nat.shiftLeft_eq]
  exact Nat.mul_pos (Nat.succ_pos bound) (Nat.two_pow_pos _)

/-- Draws an integer between zero and `bound`: words are taken from `source` until one
`accepts` the draw, and `choice` makes the result of it. -/
def draw (bound : Nat) (source : WordSource) : Nat × WordSource :=
  if accepts (bound + 1) source.next.1 then
    (choice (bound + 1) source.next.1, source.next.2)
  else draw bound source.next.2
termination_by source.left
decreasing_by
  rename_i hrefused
  rcases source.next_eq_zero_or_left_lt with hzero | hlt
  · rw [hzero] at hrefused
    exact absurd (accepts_zero bound) hrefused
  · exact hlt

/-- A result of `choice` is never above the bound, whatever the word. -/
theorem choice_le (bound : Nat) (word : UInt64) : choice (bound + 1) word ≤ bound := by
  have hword := word.toNat_lt
  have hlt : word.toNat * (bound + 1) < UInt64.size * (bound + 1) :=
    Nat.mul_lt_mul_of_pos_right hword (Nat.succ_pos bound)
  have := Nat.div_lt_of_lt_mul hlt
  exact Nat.le_of_lt_succ this

/-- A drawn integer is never above `bound`. -/
theorem draw_le (bound : Nat) (source : WordSource) : (draw bound source).1 ≤ bound := by
  fun_induction draw bound source with
  | case1 source _ => exact choice_le bound _
  | case2 source _ ih => exact ih

end Scriptlet.Random
