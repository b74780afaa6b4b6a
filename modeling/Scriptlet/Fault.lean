import Scriptlet.Syntax
import Scriptlet.Value

/-!
# Faults

A fault ends the evaluation of a program. It has a cause, the line that the cause is reported at,
and the description of the innermost statement that was being executed.

* `Fault.Cause` lists the causes, each with its wording in `Fault.Cause.text`.
* `Fault.within` records the statement, unless an inner one is recorded already.
-/

namespace Scriptlet

/-- What can go wrong between a program and its input or output. -/
inductive TransferError where
  /-- A read found no input left. -/
  | endOfInput
  /-- A line of the input is not well-formed text. -/
  | malformedText
  /-- The output refused something, in its own words. -/
  | refused (reason : String)
  deriving DecidableEq

/-- The wording of a transfer error. -/
def TransferError.text : TransferError → String
  | .endOfInput => "Unexpected end of input stream."
  | .malformedText => "stream did not contain valid UTF-8"
  | .refused reason => reason

/-- Why an evaluation ends early. -/
inductive Fault.Cause where
  | undefinedVariable (name : String)
  | undefinedFunction (name : String)
  | arityMismatch (name : String) (expected found : Nat)
  | divisionByZero
  /-- An operator on integers met values of these kinds. -/
  | operandKinds (op : BinaryOp) (left right : Value.Kind)
  /-- The bound of a random statement is of this kind. -/
  | boundKind (found : Value.Kind)
  | integerOverflow (op : BinaryOp)
  | negativeBound (bound : Int)
  | depthExceeded (limit : Nat)
  | transfer (error : TransferError)
  deriving DecidableEq

/-- How an evaluation ends when it gives no value. `Fault.message` is what the user sees of
it. -/
structure Fault where
  /-- Why evaluation ended. -/
  cause : Fault.Cause
  /-- The line that `cause` is reported at; a refused flush has line zero. -/
  line : Nat
  /-- The description of the innermost statement that was being executed, set by
  `Fault.within`. -/
  statement : Option String
  deriving DecidableEq

namespace Fault

/-- The wording of a cause, without its line. -/
def Cause.text : Cause → String
  | .undefinedVariable name => "Undefined variable '" ++ name ++ "'."
  | .undefinedFunction name => "Undefined function '" ++ name ++ "'."
  | .arityMismatch name expected found =>
    "Function '" ++ name ++ "' expects " ++ toString expected ++ " arguments but got " ++
      toString found ++ "."
  | .divisionByZero => "Division by zero."
  | .operandKinds op left right =>
    "'" ++ op.symbol ++ "' requires integer operands, found " ++ left.name ++ " and " ++
      right.name ++ "."
  | .boundKind found => "'random' requires integer operands, found " ++ found.name ++ "."
  | .integerOverflow op => "Integer overflow in '" ++ op.symbol ++ "'."
  | .negativeBound bound => "Random bound must not be negative, got " ++ toString bound ++ "."
  | .depthExceeded limit => "Maximum call depth of " ++ toString limit ++ " exceeded."
  | .transfer error => error.text

/-- The message of a fault: the line, the wording of the cause, and the statement if there is
one. -/
def message (fault : Fault) : String :=
  "[line " ++ toString fault.line ++ "] Runtime Error: " ++ fault.cause.text ++
    match fault.statement with
    | some statement => " (in " ++ statement ++ ")"
    | none => ""

/-- The fault as seen from `statement`, which was being executed. A statement that `fault`
names already is an inner one and stays. -/
def within (statement : Statement) (fault : Fault) : Fault :=
  { fault with statement := some (fault.statement.getD statement.description) }

end Fault

end Scriptlet
