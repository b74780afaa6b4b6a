/-!
# Integers of the language

The language computes with signed integers of 64 bits. They are kept as `Int` together with the
range test `Fits`, so that a result outside the range is refused.

* `Fits` is the range; `checked` keeps a number only when it is in it, and `wrapped` is what 64 bits
  keep of any number.
* `ofDigits` is the value of a run of decimal digits, of any length.
-/

namespace Scriptlet.Integer

/-- The least integer of the language. -/
def least : Int := -9223372036854775808

/-- The greatest integer of the language. -/
def greatest : Int := 9223372036854775807

/-- The number `n` is an integer of the language. -/
def Fits (n : Int) : Prop :=
  least ≤ n ∧ n ≤ greatest

/-- Whether `Fits n` holds is decidable, so that operators can test their results. -/
instance (n : Int) : Decidable (Fits n) :=
  inferInstanceAs (Decidable (_ ∧ _))

/-- The number `n` when it `Fits`, and nothing otherwise. -/
def checked (n : Int) : Option Int :=
  if Fits n then some n else none

/-- The integer of the language that has the lowest 64 bits of `n`. -/
def wrapped (n : Int) : Int :=
  n.bmod UInt64.size

/-- The number that a run of decimal digits denotes, of any length. Whether it is an integer
of the language is tested by `checked` where a literal is read. -/
def ofDigits (digits : List Char) : Nat :=
  Nat.ofDigitChars 10 digits 0

@[simp]
theorem ofDigits_toDigits (n : Nat) : ofDigits (Nat.toDigits 10 n) = n := by
  simp [ofDigits]

theorem checked_eq_some_iff {n m : Int} : checked n = some m ↔ Fits n ∧ n = m := by
  simp [checked]

theorem checked_eq_none_iff {n : Int} : checked n = none ↔ ¬ Fits n := by
  simp [checked]

/-- An integer of the language has 64 bits, so `wrapped` leaves it alone. -/
theorem wrapped_of_fits {n : Int} (h : Fits n) : wrapped n = n := by
  have hsize : UInt64.size = 18446744073709551616 := rfl
  unfold Fits least greatest at h
  exact Int.bmod_eq_of_le (by omega) (by omega)

end Scriptlet.Integer
