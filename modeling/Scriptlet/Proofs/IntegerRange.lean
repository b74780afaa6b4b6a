import Scriptlet.Proofs.Arithmetic
import Scriptlet.Proofs.Evaluation.Discipline

/-!
# Integers stay in range

A run that starts with integers of the language only ever computes integers of the language: sums
and quotients are exact or refused, and a random integer is not above its bound.

* `Value.InRange`, `Expression.InRange` and `Statement.InRange` say that everything that is written
  or computed is in range, at any depth.
* `inRange` is the discipline of integers in range, and `sound_inRange` says that every way in which
  values come about keeps to it.
* `integers_exact_and_in_range` is the result.
-/

namespace Scriptlet

open Evaluation

/-! ## Values and trees -/

/-- The values that `value` is made of directly. -/
def Value.items : Value → List Value
  | .list items => items
  | _ => []

/-- The value `part` is `value` itself, or an item of it at any depth. -/
def Value.Contains : Value → Value → Prop :=
  Relation.ReflTransGen fun whole part => part ∈ whole.items

/-- All integers that `value` contains are integers of the language. -/
def Value.InRange (value : Value) : Prop :=
  ∀ part, value.Contains part → ∀ n, part = .integer n → Integer.Fits n

/-- All literals that `tree` contains are integers of the language. -/
def Expression.InRange (tree : Expression) : Prop :=
  ∀ part, tree.Contains part → ∀ n, part = .literal n → Integer.Fits n

/-- All literals inside the statement, in bodies of functions too, are integers of the
language. -/
def Statement.InRange (tree : Statement) : Prop :=
  ∀ part, tree.Contains part → ∀ operand, part.operand? = some operand → operand.InRange

/-- What holds of everything inside `whole` holds of the whole and inside its direct parts.
The three lemmas `inRange_iff` are cases of it. -/
theorem forall_reflTransGen_iff {α : Type} {r : α → α → Prop} {P : α → Prop} {whole : α} :
    (∀ inner, Relation.ReflTransGen r whole inner → P inner) ↔
      P whole ∧ ∀ part, r whole part → ∀ inner, Relation.ReflTransGen r part inner → P inner := by
  refine ⟨fun h => ⟨h whole .refl, fun part hpart inner hinner => h inner (.head hpart hinner)⟩,
    fun h inner hinner => ?_⟩
  rcases Relation.ReflTransGen.cases_head hinner with rfl | ⟨part, hpart, hrest⟩
  · exact h.1
  · exact h.2 part hpart inner hrest

theorem Value.inRange_iff {value : Value} :
    value.InRange ↔
      (∀ n, value = .integer n → Integer.Fits n) ∧ ∀ item ∈ value.items, item.InRange :=
  forall_reflTransGen_iff

theorem Expression.inRange_iff {tree : Expression} :
    tree.InRange ↔
      (∀ n, tree = .literal n → Integer.Fits n) ∧ ∀ part ∈ tree.operands, part.InRange :=
  forall_reflTransGen_iff

theorem Statement.inRange_iff {tree : Statement} :
    tree.InRange ↔ (∀ operand, tree.operand? = some operand → operand.InRange) ∧
      ∀ part ∈ tree.body, part.InRange :=
  forall_reflTransGen_iff

theorem Expression.InRange.literal {n : Int} (h : Integer.Fits n) :
    (Expression.literal n).InRange :=
  inRange_iff.mpr ⟨by rintro m ⟨⟩; exact h, List.forall_mem_nil _⟩

theorem Expression.InRange.binary {op : BinaryOp} {left right : Expression} {line : Nat}
    (hleft : left.InRange) (hright : right.InRange) :
    (Expression.binary op left right line).InRange :=
  inRange_iff.mpr ⟨by simp, by simpa [operands] using ⟨hleft, hright⟩⟩

theorem Value.inRange_of_items_eq_nil {value : Value} (hne : ∀ n, value ≠ .integer n)
    (hitems : value.items = []) : value.InRange :=
  inRange_iff.mpr ⟨fun n heq => absurd heq (hne n), hitems ▸ List.forall_mem_nil _⟩

theorem Value.inRange_integer {n : Int} : (Value.integer n).InRange ↔ Integer.Fits n := by
  rw [inRange_iff]
  refine ⟨fun h => h.1 n rfl, fun h => ⟨?_, List.forall_mem_nil _⟩⟩
  rintro m ⟨⟩
  exact h

/-- An operator on values `InRange` gives a value `InRange`: a string, a truth value, or by
`Exact` an integer of the language. -/
theorem BinaryOp.inRange_of_apply {op : BinaryOp} {left right value : Value}
    (hleft : left.InRange) (hright : right.InRange) (h : op.apply left right = .ok value) :
    value.InRange := by
  have hyields := op.yields_apply left right
  rw [h] at hyields
  cases hyields with
  | integer a b n =>
    rw [Value.inRange_integer] at hleft hright ⊢
    exact BinaryOp.fits_of_apply hleft hright h
  | boolean _ _ _ | joined _ _ => exact Value.inRange_of_items_eq_nil (by simp) rfl

/-- What `Random.draw` gives is between zero and `bound`, so it is in range when `bound` is. -/
theorem fits_draw {bound : Int} (hsign : 0 ≤ bound) (hbound : Integer.Fits bound)
    (words : Random.WordSource) : Integer.Fits (Random.draw bound.toNat words).1 := by
  have hle := Random.draw_le bound.toNat words
  unfold Integer.Fits Integer.least Integer.greatest at *
  omega

/-! ## Runs -/

/-- The discipline of integers in range: values, expressions and statements are `InRange`. -/
def inRange : Discipline where
  value := Value.InRange
  expression := Expression.InRange
  statement := Statement.InRange

/-- Every way in which values come about keeps to `inRange`. -/
theorem sound_inRange : inRange.Sound where
  operand h hoperand := (Statement.inRange_iff.mp h).1 _ hoperand
  body h hinner := (Statement.inRange_iff.mp h).2 _ hinner
  operands h hinner := (Expression.inRange_iff.mp h).2 _ hinner
  literal h := Value.inRange_integer.mpr ((Expression.inRange_iff.mp h).1 _ rfl)
  string _ _ := Value.inRange_of_items_eq_nil (by simp) rfl
  list h := Value.inRange_iff.mpr ⟨by simp, h⟩
  operator hleft hright h := BinaryOp.inRange_of_apply hleft hright h
  line _ := Value.inRange_of_items_eq_nil (by simp) rfl
  draw hsign hbound words :=
    Value.inRange_integer.mpr (fits_draw hsign (Value.inRange_integer.mp hbound) words)
  nil := Value.inRange_of_items_eq_nil (by simp) rfl

/-- **Arithmetic is exact or refused, and integers stay in range.** On integers of the
language all operators are `BinaryOp.Exact`: they give the exact result or refuse it, and no
step of a division leaves the range. So when the literals of `program` are `InRange` and
`inRange` allows `machine`, then it allows what is there at all points of
`program.history machine`, at their ends and at the end of the run. -/
theorem integers_exact_and_in_range :
    (∀ a b, Integer.Fits a → Integer.Fits b → BinaryOp.Exact a b) ∧
      ∀ (program : Program) (machine : Machine), (∀ tree ∈ program, tree.InRange) →
        inRange.AllowsMachine machine →
        (∀ point ∈ program.history machine, inRange.Allows point ∧ inRange.Keeps point) ∧
          inRange.Ensures Value.InRange program.run machine := by
  refine ⟨fun a b ha hb => BinaryOp.exact_of_fits ha hb, ?_⟩
  intro program machine hprogram hmachine
  constructor
  · intro point hpoint
    have hallows := sound_inRange.allows_programHistory hprogram hmachine point hpoint
    exact ⟨hallows, (sound_inRange.keeps hallows).2⟩
  · exact sound_inRange.ensures_run hprogram hmachine

/-- A program that divides integers of different signs. -/
def Program.lowered : Program :=
  [.assign "x" (.binary .divide (.literal 7)
    (.binary .subtract (.literal 0) (.literal 2) 1) 1) 1]

/-- In `Program.lowered` seven by minus two is rounded down, to minus four. -/
theorem lowered_quotient_in_range :
    (Integer.Fits 7 ∧ Integer.Fits (-2) ∧ ∃ q, BinaryOp.apply .divide (.integer 7) (.integer (-2)) =
      .ok (.integer q) ∧ Integer.IsFloor q 7 (-2)) ∧
    (∀ tree ∈ Program.lowered, tree.InRange) ∧
    inRange.AllowsMachine (.fresh .unlimited [] (.scripted []) 1) ∧
    ∃ after, Program.lowered.run (.fresh .unlimited [] (.scripted []) 1) =
      .ok (.integer (-4)) after ∧ inRange.AllowsMachine after := by
  have hprogram : ∀ tree ∈ Program.lowered, tree.InRange := by
    refine List.forall_mem_singleton.mpr (Statement.inRange_iff.mpr ⟨?_, List.forall_mem_nil _⟩)
    rintro operand ⟨⟩
    exact .binary (.literal (by decide)) (.binary (.literal (by decide)) (.literal (by decide)))
  have hmachine := allowsMachine_fresh inRange .unlimited [] (.scripted []) 1
  refine ⟨⟨by decide, by decide, ?_⟩, hprogram, hmachine, _, rfl, ?_⟩
  · exact (integers_exact_and_in_range.1 7 (-2) (by decide) (by decide)).divide (by decide)
      (by decide)
  · exact (integers_exact_and_in_range.2 _ _ hprogram hmachine).2.after

end Scriptlet
