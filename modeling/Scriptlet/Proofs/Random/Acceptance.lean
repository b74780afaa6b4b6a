import Mathlib.Algebra.Order.Floor.Div
import Mathlib.SetTheory.Cardinal.Finite
import Scriptlet.Random.Draw

/-!
# Accepted words

A draw of an integer between zero and a bound works on words of 64 bits. For every bound of the
language it does so without a wrap where none is meant, and it favours no result: of all words the
same number is accepted for each of them.

* `range` and `zone` are what a draw computes with, as words.
* `firstWord` is the least word for a result. `accepts_and_choice_iff`: the accepted words for a
  result are the `2 ^ leadingZeros` ones from there on.
* `DecidesEvenly` lists what is said above, and `decidesEvenly` is the result.
-/

namespace Scriptlet.Random

/-- The number of integers between zero and `bound`, as a word. -/
def range (bound : Nat) : UInt64 :=
  UInt64.ofNat (bound + 1)

/-- The greatest lower half of a product with which a word is accepted. -/
def zone (bound : Nat) : UInt64 :=
  range bound <<< UInt64.ofNat (leadingZeros (range bound).toNat) - 1

/-- The words decide evenly on the integers between zero and `bound`: neither `range` nor
`zone` wraps, `accepts` compares words, and each result `k` has equally many accepted words. -/
structure DecidesEvenly (bound : Nat) : Prop where
  range_toNat : (range bound).toNat = bound + 1
  zone_toNat : (zone bound).toNat + 1 = (bound + 1) * 2 ^ leadingZeros (bound + 1)
  accepts_iff : ∀ word, accepts (bound + 1) word = true ↔ word * range bound ≤ zone bound
  card_eq : ∀ k ≤ bound,
    Nat.card {word : UInt64 // accepts (bound + 1) word = true ∧ choice (bound + 1) word = k} =
      2 ^ leadingZeros (bound + 1)

/-! ## Words without a wrap -/

/-- A number `n` with its `leadingZeros` shifted out has 64 bits. -/
theorem mul_two_pow_leadingZeros_lt {n : Nat} (hpos : n ≠ 0) (hlt : n < 2 ^ 64) :
    n * 2 ^ leadingZeros n < 2 ^ 64 := by
  have hlog : n.log2 < 64 := (Nat.log2_lt hpos).mpr hlt
  calc n * 2 ^ leadingZeros n < 2 ^ (n.log2 + 1) * 2 ^ leadingZeros n :=
        Nat.mul_lt_mul_of_pos_right Nat.lt_log2_self (Nat.two_pow_pos _)
    _ = 2 ^ 64 := by
        rw [← pow_add, leadingZeros]
        congr 1
        omega

section

variable {bound : Nat} {word : UInt64}

theorem toNat_range (h : bound < 2 ^ 63) : (range bound).toNat = bound + 1 := by
  have hsize : bound + 1 < UInt64.size := by
    show _ < 2 ^ 64
    omega
  exact UInt64.toNat_ofNat_of_lt' hsize

/-- Shifting out the leading zeros of `range bound` loses no digit. -/
theorem toNat_range_shiftLeft (h : bound < 2 ^ 63) :
    (range bound <<< UInt64.ofNat (leadingZeros (range bound).toNat)).toNat =
      (bound + 1) * 2 ^ leadingZeros (bound + 1) := by
  have hlt := mul_two_pow_leadingZeros_lt (n := bound + 1) (by omega) (by omega)
  have hshift : leadingZeros (bound + 1) < 64 := by
    unfold leadingZeros
    omega
  have hsize : leadingZeros (bound + 1) < UInt64.size := hshift.trans (by decide)
  rw [UInt64.toNat_shiftLeft, toNat_range h, UInt64.toNat_ofNat_of_lt' hsize,
    Nat.mod_eq_of_lt hshift, Nat.shiftLeft_eq, Nat.mod_eq_of_lt hlt]

theorem toNat_zone (h : bound < 2 ^ 63) :
    (zone bound).toNat + 1 = (bound + 1) * 2 ^ leadingZeros (bound + 1) := by
  have hpos : 0 < (bound + 1) * 2 ^ leadingZeros (bound + 1) :=
    Nat.mul_pos (Nat.succ_pos bound) (Nat.two_pow_pos _)
  have hone : 1 ≤ range bound <<< UInt64.ofNat (leadingZeros (range bound).toNat) := by
    rw [UInt64.le_iff_toNat_le, toNat_range_shiftLeft h]
    exact hpos
  rw [zone, UInt64.toNat_sub_of_le _ _ hone, toNat_range_shiftLeft h]
  exact Nat.sub_add_cancel hpos

/-- A word is accepted when the lower half of its product with `range bound` is at most
`zone bound`. Here the product wraps, and this is meant. -/
theorem accepts_iff (h : bound < 2 ^ 63) :
    accepts (bound + 1) word = true ↔ word * range bound ≤ zone bound := by
  rw [accepts, decide_eq_true_iff, Nat.shiftLeft_eq, ← toNat_zone h, Nat.lt_succ_iff,
    UInt64.le_iff_toNat_le, UInt64.toNat_mul, toNat_range h]

/-! ## Accepted words for a result -/

/-- The least word that decides on the result `k` or a greater one. -/
def firstWord (bound k : Nat) : Nat :=
  k * UInt64.size ⌈/⌉ (bound + 1)

/-- The numbers from `firstWord bound k` on, by the inequality that it solves: `l` further
words may be taken when the product with `bound + 1` leaves room for them. -/
theorem firstWord_add_le_iff {k l n : Nat} :
    firstWord bound k + l ≤ n ↔ k * UInt64.size + l * (bound + 1) ≤ n * (bound + 1) := by
  rcases Nat.lt_or_ge n l with hlt | hle
  · -- There are fewer than `l` words up to `n`, and none of the products reaches that of `l`.
    have hproduct : n * (bound + 1) < l * (bound + 1) :=
      Nat.mul_lt_mul_of_pos_right hlt (Nat.succ_pos bound)
    omega
  · obtain ⟨n, rfl⟩ := Nat.exists_eq_add_of_le' hle
    rw [Nat.add_le_add_iff_right, firstWord, ceilDiv_le_iff_le_mul (Nat.succ_pos bound),
      Nat.add_mul, Nat.add_le_add_iff_right, Nat.mul_comm (bound + 1)]

/-- A number has the quotient `k` and a remainder below `limit` exactly when it is among the
first numbers with this quotient. -/
theorem mod_lt_and_div_eq_iff {n size limit k : Nat} (h : limit ≤ size) :
    n % size < limit ∧ n / size = k ↔ k * size ≤ n ∧ n < k * size + limit := by
  -- The number is its quotient times `size` and its remainder.
  have hsplit := Nat.div_add_mod n size
  constructor
  · rintro ⟨hmod, rfl⟩
    rw [Nat.mul_comm] at hsplit
    omega
  · rintro ⟨hle, hlt⟩
    have hdiv : n / size = k := by
      refine Nat.div_eq_of_lt_le hle ?_
      rw [Nat.succ_mul]
      omega
    rw [hdiv, Nat.mul_comm] at hsplit
    exact ⟨by omega, hdiv⟩

/-- The accepted words for the result `k` follow on each other, from `firstWord bound k` on. -/
theorem accepts_and_choice_iff (h : bound < 2 ^ 63) {k : Nat} :
    accepts (bound + 1) word = true ∧ choice (bound + 1) word = k ↔
      firstWord bound k ≤ word.toNat ∧
        word.toNat < firstWord bound k + 2 ^ leadingZeros (bound + 1) := by
  have hlimit : (bound + 1) * 2 ^ leadingZeros (bound + 1) ≤ UInt64.size :=
    (mul_two_pow_leadingZeros_lt (by omega) (by omega)).le
  have hfirst : firstWord bound k ≤ word.toNat ↔
      k * UInt64.size ≤ word.toNat * (bound + 1) := by
    simpa using firstWord_add_le_iff (l := 0)
  -- The products that are accepted for `k` begin at `k * 2 ^ 64` and go on below the limit.
  rw [accepts, choice, decide_eq_true_iff, Nat.shiftLeft_eq, mod_lt_and_div_eq_iff hlimit, hfirst,
    ← Nat.not_le, ← Nat.not_le, firstWord_add_le_iff, Nat.mul_comm (bound + 1)]

/-- The words from `m` on, by their positions behind it. -/
def wordsEquivFin {m l : Nat} (h : m + l ≤ UInt64.size) :
    {word : UInt64 // m ≤ word.toNat ∧ word.toNat < m + l} ≃ Fin l where
  toFun word := ⟨word.1.toNat - m, by have := word.2; omega⟩
  invFun i := ⟨UInt64.ofNat (m + i), by
    rw [UInt64.toNat_ofNat_of_lt' (by omega)]
    omega⟩
  left_inv word := by
    have hword : m + (word.1.toNat - m) = word.1.toNat := Nat.add_sub_cancel' word.2.1
    exact Subtype.ext (by simp only [hword, UInt64.ofNat_toNat])
  right_inv i := by
    have hword : (UInt64.ofNat (m + i)).toNat = m + i := UInt64.toNat_ofNat_of_lt' (by omega)
    exact Fin.ext (by simp only [hword, Nat.add_sub_cancel_left])

/-- **No result is favoured.** For every bound of the language, each integer between zero and
the bound has the same number of accepted words, and the computation on words is free of
wraps: this is `DecidesEvenly bound`. -/
theorem decidesEvenly (h : bound < 2 ^ 63) : DecidesEvenly bound where
  range_toNat := toNat_range h
  zone_toNat := toNat_zone h
  accepts_iff _ := accepts_iff h
  card_eq k hk := by
    -- The words for the greatest result still end where the words end.
    have hroom : firstWord bound k + 2 ^ leadingZeros (bound + 1) ≤ UInt64.size := by
      have hlt := mul_two_pow_leadingZeros_lt (n := bound + 1) (by omega) (by omega)
      have hresults : k * UInt64.size ≤ bound * UInt64.size := Nat.mul_le_mul_right _ hk
      rw [firstWord_add_le_iff, Nat.mul_succ UInt64.size, Nat.mul_comm _ (bound + 1),
        Nat.mul_comm UInt64.size]
      exact Nat.add_le_add hresults hlt.le
    simp only [accepts_and_choice_iff h]
    rw [Nat.card_congr (wordsEquivFin hroom), Nat.card_fin]

end

end Scriptlet.Random
