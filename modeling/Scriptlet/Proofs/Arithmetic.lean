import Scriptlet.Value.Arithmetic

/-!
# Exact arithmetic

On integers of the language the operators compute what they stand for in the integers without
bounds, or they refuse it. No step on the way leaves the range, not even one that is not checked.

* `BinaryOp.Yields` says what an operator on any two values can come to.
* `Integer.IsFloor` is the quotient rounded toward negative infinity, which `Integer.isFloor_tdiv`
  and `Integer.isFloor_tdiv_sub_one` find from the quotient rounded toward zero.
* `BinaryOp.Exact` is all that is asked of the operators on two integers, and
  `BinaryOp.exact_of_fits` says that they do it.
-/

namespace Scriptlet

/-! ## What operators come to -/

namespace BinaryOp

/-- What `op` applied to two values can come to: a value or a refusal for each of these pairs. -/
inductive Yields (op : BinaryOp) : Value → Value → Except Fault.Cause Value → Prop where
  | integer (a b n : Int) : Yields op (.integer a) (.integer b) (.ok (.integer n))
  | boolean (a b : Int) (truth : Bool) : Yields op (.integer a) (.integer b) (.ok (.boolean truth))
  | joined (left right : Value) : Yields op left right (.ok (.string (left.text ++ right.text)))
  | overflow (a b : Int) : Yields op (.integer a) (.integer b) (.error (.integerOverflow op))
  | divisionByZero (a b : Int) (h : op = .divide) :
    Yields op (.integer a) (.integer b) (.error .divisionByZero)
  | operandKinds (left right : Value) :
    Yields op left right (.error (.operandKinds op left.kind right.kind))

theorem yields_bounded (op : BinaryOp) (a b n : Int) :
    op.Yields (.integer a) (.integer b) (op.bounded n) := by
  by_cases h : Integer.Fits n
  · rw [bounded_of_fits h]
    exact .integer a b n
  · rw [bounded_of_not_fits h]
    exact .overflow a b

theorem yields_floorQuotient (a b : Int) :
    Yields .divide (.integer a) (.integer b) (floorQuotient a b) := by
  unfold floorQuotient
  split
  · exact .divisionByZero a b rfl
  · split
    · exact .overflow a b
    · split
      · exact .integer a b _
      · exact .integer a b _

/-- The outcome of `op.apply` is one of those that `Yields` lists. -/
theorem yields_apply (op : BinaryOp) (left right : Value) :
    op.Yields left right (op.apply left right) := by
  -- Concatenation takes all values, the other operators only integers.
  by_cases hop : op = .concat
  · rw [hop, apply_concat]
    exact .joined left right
  · by_cases hintegers : ∃ a b, left = .integer a ∧ right = .integer b
    · obtain ⟨a, b, rfl, rfl⟩ := hintegers
      rw [apply_integer hop]
      cases op with
      | add | subtract | multiply => exact yields_bounded ..
      | divide => exact yields_floorQuotient ..
      | greater | less => exact .boolean a b _
      | concat => exact absurd rfl hop
    · have hkinds : op.apply left right = .error (.operandKinds op left.kind right.kind) := by
        unfold apply
        rw [if_neg hop]
        split
        · exact absurd ⟨_, _, rfl, rfl⟩ hintegers
        · rfl
      rw [hkinds]
      exact .operandKinds left right

end BinaryOp

/-! ## Quotients -/

namespace Integer

variable {a b : Int}

/-- The remainder `a.tmod b` of a quotient rounded toward zero is smaller than `b` and has the
sign of `a`. -/
theorem tmod_bounds (hb : b ≠ 0) :
    (a.tmod b).natAbs < b.natAbs ∧ (0 ≤ a → 0 ≤ a.tmod b) ∧ (a ≤ 0 → a.tmod b ≤ 0) := by
  refine ⟨?_, fun h => Int.tmod_nonneg b h, fun h => ?_⟩
  · rw [Int.natAbs_tmod]
    exact Nat.mod_lt _ (Int.natAbs_pos.mpr hb)
  · have hneg := Int.tmod_nonneg b (Int.neg_nonneg_of_nonpos h)
    rw [Int.neg_tmod] at hneg
    omega

theorem natAbs_tdiv_le_half (h : 2 ≤ b.natAbs) : (a.tdiv b).natAbs ≤ a.natAbs / 2 := by
  rw [Int.natAbs_tdiv]
  exact Nat.div_le_div_left h (by decide)

/-- The quotient `a.tdiv b` is out of range for one pair of integers only: `least` divided by
`-1`. -/
theorem fits_tdiv (ha : Fits a) (hb : b ≠ 0) (hpair : ¬ (a = least ∧ b = -1)) :
    Fits (a.tdiv b) := by
  unfold Fits least greatest at *
  by_cases htwo : 2 ≤ b.natAbs
  · have hhalf := natAbs_tdiv_le_half (a := a) htwo
    omega
  · -- Only the sign can change, and that of the least integer alone leads out of the range.
    obtain rfl | rfl : b = 1 ∨ b = -1 := by omega
    · rwa [Int.tdiv_one]
    · rw [Int.tdiv_neg, Int.tdiv_one]
      omega

theorem fits_tmod (hb : Fits b) (hne : b ≠ 0) : Fits (a.tmod b) := by
  have hbounds := (tmod_bounds (a := a) hne).1
  unfold Fits least greatest at *
  omega

/-- Where `a.tmod b` is not zero, `a.tdiv b` is far from the ends of the range, so one less
still `Fits`. -/
theorem fits_tdiv_sub_one (ha : Fits a) (hb : b ≠ 0) (hmod : a.tmod b ≠ 0) :
    Fits (a.tdiv b - 1) := by
  -- One and minus one leave no remainder.
  have hbounds := (tmod_bounds (a := a) hb).1
  have hhalf := natAbs_tdiv_le_half (a := a) (b := b) (by omega)
  unfold Fits least greatest at *
  omega

/-- The integer `q` is the quotient of `a` and `b` rounded toward negative infinity. -/
def IsFloor (q a b : Int) : Prop :=
  (0 < b → q * b ≤ a ∧ a < q * b + b) ∧ (b < 0 → a ≤ q * b ∧ q * b + b < a)

/-- Where `a.tmod b` is zero or the signs agree, rounding toward zero is rounding down. -/
theorem isFloor_tdiv (hb : b ≠ 0) (h : a.tmod b = 0 ∨ (a < 0 ↔ b < 0)) :
    IsFloor (a.tdiv b) a b := by
  obtain ⟨hlt, hnonneg, hnonpos⟩ := tmod_bounds (a := a) hb
  -- Everything is linear in the product of the quotient and the divisor.
  have hsum := Int.tdiv_mul_add_tmod a b
  unfold IsFloor
  omega

/-- Where `a.tmod b` is not zero and the signs differ, rounding down is one less than
`a.tdiv b`. -/
theorem isFloor_tdiv_sub_one (hb : b ≠ 0) (hmod : a.tmod b ≠ 0) (hsigns : ¬ (a < 0 ↔ b < 0)) :
    IsFloor (a.tdiv b - 1) a b := by
  obtain ⟨hlt, hnonneg, hnonpos⟩ := tmod_bounds (a := a) hb
  have hsum := Int.tdiv_mul_add_tmod a b
  unfold IsFloor
  rw [Int.sub_mul, Int.one_mul]
  omega

end Integer

/-! ## Exactness -/

namespace BinaryOp

open Integer

variable {a b : Int}

/-- The quotient `floorQuotient a b`, apart from the two cases in which there is none. -/
theorem floorQuotient_of_fits (ha : Integer.Fits a) (hb : b ≠ 0) (hpair : ¬ (a = least ∧ b = -1)) :
    ∃ q, floorQuotient a b = .ok (.integer q) ∧ Integer.Fits q ∧ IsFloor q a b := by
  have hquotient := fits_tdiv ha hb hpair
  unfold floorQuotient
  rw [if_neg hb, checked_eq_some_iff.mpr ⟨hquotient, rfl⟩]
  dsimp only
  split
  · rename_i h
    have hlower := fits_tdiv_sub_one ha hb h.1
    exact ⟨_, by rw [wrapped_of_fits hlower], hlower, isFloor_tdiv_sub_one hb h.1 h.2⟩
  · rename_i h
    exact ⟨_, rfl, hquotient, isFloor_tdiv hb (Decidable.or_iff_not_not_and_not.mpr h)⟩

theorem floorQuotient_zero (a : Int) : floorQuotient a 0 = .error .divisionByZero := rfl

theorem floorQuotient_least : floorQuotient least (-1) = .error (.integerOverflow .divide) := rfl

/-- The two cases in which `floorQuotient` is refused: `b` is zero, or the pair is `least` and
`-1`. -/
theorem floorQuotient_refused_iff (ha : Integer.Fits a) (b : Int) :
    (floorQuotient a b = .error .divisionByZero ↔ b = 0) ∧
      (floorQuotient a b = .error (.integerOverflow .divide) ↔ a = least ∧ b = -1) := by
  by_cases hzero : b = 0
  · rw [hzero, floorQuotient_zero]
    simp
  · by_cases hpair : a = least ∧ b = -1
    · rw [hpair.1, hpair.2, floorQuotient_least]
      simp
    · obtain ⟨q, hq, -⟩ := floorQuotient_of_fits ha hzero hpair
      simp [hq, hzero, hpair]

/-- The outcome of `op` is the integer `exact`, unless that is out of range: then it is
refused. -/
def ExactOrRefused (op : BinaryOp) (exact : Int) (outcome : Except Fault.Cause Value) : Prop :=
  (Integer.Fits exact → outcome = .ok (.integer exact)) ∧
    (¬ Integer.Fits exact → outcome = .error (.integerOverflow op))

theorem exactOrRefused_bounded (op : BinaryOp) (n : Int) : op.ExactOrRefused n (op.bounded n) :=
  ⟨bounded_of_fits, bounded_of_not_fits⟩

theorem ExactOrRefused.fits {op : BinaryOp} {exact n : Int}
    (h : op.ExactOrRefused exact (.ok (.integer n))) : Integer.Fits n := by
  by_cases hfits : Integer.Fits exact
  · cases h.1 hfits
    exact hfits
  · cases h.2 hfits

/-- What is asked of the operators on the integers `a` and `b`. Sums, differences and products
are `ExactOrRefused`; a quotient is refused in its two cases and is the one rounded down in
all others. -/
structure Exact (a b : Int) : Prop where
  add : ExactOrRefused .add (a + b) (apply .add (.integer a) (.integer b))
  subtract : ExactOrRefused .subtract (a - b) (apply .subtract (.integer a) (.integer b))
  multiply : ExactOrRefused .multiply (a * b) (apply .multiply (.integer a) (.integer b))
  divisionByZero_iff : apply .divide (.integer a) (.integer b) = .error .divisionByZero ↔ b = 0
  overflow_iff : apply .divide (.integer a) (.integer b) = .error (.integerOverflow .divide) ↔
    a = least ∧ b = -1
  divide : b ≠ 0 → ¬ (a = least ∧ b = -1) →
    ∃ q, apply .divide (.integer a) (.integer b) = .ok (.integer q) ∧ IsFloor q a b
  /-- The steps of a division stay in range: `a.tdiv b`, `a.tmod b`, and one less than the
  former where that is taken. -/
  steps : b ≠ 0 → ¬ (a = least ∧ b = -1) →
    Integer.Fits (a.tdiv b) ∧ Integer.Fits (a.tmod b) ∧
      (a.tmod b ≠ 0 → ¬ (a < 0 ↔ b < 0) → Integer.Fits (a.tdiv b - 1))
  greater : apply .greater (.integer a) (.integer b) = .ok (.boolean (decide (a > b)))
  less : apply .less (.integer a) (.integer b) = .ok (.boolean (decide (a < b)))

/-- All operators are `Exact` on integers of the language. -/
theorem exact_of_fits (ha : Integer.Fits a) (hb : Integer.Fits b) : Exact a b where
  add := exactOrRefused_bounded .add _
  subtract := exactOrRefused_bounded .subtract _
  multiply := exactOrRefused_bounded .multiply _
  divisionByZero_iff := (floorQuotient_refused_iff ha b).1
  overflow_iff := (floorQuotient_refused_iff ha b).2
  divide hne hpair := by
    obtain ⟨q, hq, -, hfloor⟩ := floorQuotient_of_fits ha hne hpair
    exact ⟨q, hq, hfloor⟩
  steps hne hpair :=
    ⟨fits_tdiv ha hne hpair, fits_tmod hb hne, fun hmod _ => fits_tdiv_sub_one ha hne hmod⟩
  greater := rfl
  less := rfl

/-- On integers of the language, an operator that gives the integer `n` gives one of the
language. -/
theorem fits_of_apply {op : BinaryOp} {n : Int} (ha : Integer.Fits a) (hb : Integer.Fits b)
    (h : op.apply (.integer a) (.integer b) = .ok (.integer n)) : Integer.Fits n := by
  have hexact := exact_of_fits ha hb
  cases op with
  | add => exact (h ▸ hexact.add).fits
  | subtract => exact (h ▸ hexact.subtract).fits
  | multiply => exact (h ▸ hexact.multiply).fits
  | divide =>
    -- The division gave a value, so it was not refused for either reason.
    have hne : b ≠ 0 := fun hzero => by cases h.symm.trans (hexact.divisionByZero_iff.mpr hzero)
    have hpair : ¬ (a = least ∧ b = -1) := fun hpair => by
      cases h.symm.trans (hexact.overflow_iff.mpr hpair)
    obtain ⟨q, hq, hfits, -⟩ := floorQuotient_of_fits ha hne hpair
    cases h.symm.trans hq
    exact hfits
  | greater | less | concat => cases h

end BinaryOp

end Scriptlet
