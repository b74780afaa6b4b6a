import Scriptlet.Fault
import Scriptlet.Integer

/-!
# Operators on values

Concatenation joins the texts of any two values. All other operators take two integers. Sums,
differences, products and quotients are exact or refused; quotients are rounded toward negative
infinity.

* `BinaryOp.floorQuotient` is the quotient of two integers, and `BinaryOp.applyIntegers` any
  operator on two integers.
* `BinaryOp.apply` is an operator on two values.
-/

namespace Scriptlet.BinaryOp

/-- The integer `result` of `op`, refused when it is no integer of the language. -/
def bounded (op : BinaryOp) (result : Int) : Except Fault.Cause Value :=
  match Integer.checked result with
  | some n => .ok (.integer n)
  | none => .error (.integerOverflow op)

/-- The quotient of `a` and `b`. It is rounded toward zero first; where a remainder was
dropped and the signs differ, the result is one less, for which the range is not checked
again. -/
def floorQuotient (a b : Int) : Except Fault.Cause Value :=
  if b = 0 then .error .divisionByZero
  else
    match Integer.checked (a.tdiv b) with
    | none => .error (.integerOverflow .divide)
    | some quotient =>
      if a.tmod b ≠ 0 ∧ ¬ (a < 0 ↔ b < 0) then .ok (.integer (Integer.wrapped (quotient - 1)))
      else .ok (.integer quotient)

/-- The operator `op` applied to two integers. -/
def applyIntegers (op : BinaryOp) (a b : Int) : Except Fault.Cause Value :=
  match op with
  | .add => op.bounded (a + b)
  | .subtract => op.bounded (a - b)
  | .multiply => op.bounded (a * b)
  | .divide => floorQuotient a b
  | .greater => .ok (.boolean (decide (a > b)))
  | .less => .ok (.boolean (decide (a < b)))
  | .concat => .ok (.string (toString a ++ toString b))

/-- The operator `op` applied to two values. Only `concat` takes other values than integers. -/
def apply (op : BinaryOp) (left right : Value) : Except Fault.Cause Value :=
  if op = .concat then .ok (.string (left.text ++ right.text))
  else
    match left, right with
    | .integer a, .integer b => op.applyIntegers a b
    | _, _ => .error (.operandKinds op left.kind right.kind)

theorem bounded_of_fits {op : BinaryOp} {n : Int} (h : Integer.Fits n) :
    op.bounded n = .ok (.integer n) := by
  simp [bounded, Integer.checked, h]

theorem bounded_of_not_fits {op : BinaryOp} {n : Int} (h : ¬ Integer.Fits n) :
    op.bounded n = .error (.integerOverflow op) := by
  simp [bounded, Integer.checked, h]

theorem apply_concat (left right : Value) :
    apply .concat left right = .ok (.string (left.text ++ right.text)) := by
  simp [apply]

/-- Any other operator than `concat` acts on two integers as `applyIntegers` says. -/
theorem apply_integer {op : BinaryOp} (h : op ≠ .concat) (a b : Int) :
    op.apply (.integer a) (.integer b) = op.applyIntegers a b := by
  simp [apply, h]

end Scriptlet.BinaryOp
