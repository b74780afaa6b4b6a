/-!
# Expressions and statements

The trees of the language. Every node at which something can go wrong during evaluation carries the
line of the token it is reported at.

* `BinaryOp.rank` orders the operators from the tightest to the loosest.
* `Statement.description` names a statement in diagnostics.
-/

namespace Scriptlet

/-- A binary operator, applied to its operands by `BinaryOp.apply`. -/
inductive BinaryOp where
  | add
  | subtract
  | multiply
  | divide
  | concat
  | greater
  | less
  deriving DecidableEq

/-- The spelling of an operator. -/
def BinaryOp.symbol : BinaryOp → String
  | .add => "+"
  | .subtract => "-"
  | .multiply => "*"
  | .divide => "/"
  | .concat => "<>"
  | .greater => "/\\"
  | .less => "\\/"

/-- How loosely an operator binds: comparisons bind tightest, then products, sums, and
concatenation. -/
def BinaryOp.rank : BinaryOp → Nat
  | .greater | .less => 1
  | .multiply | .divide => 2
  | .add | .subtract => 3
  | .concat => 4

/-- An expression. `line` is the line of the token that a fault in the node is reported at. -/
inductive Expression where
  /-- An integer literal. -/
  | literal (value : Int)
  /-- A string literal as it was written; `Environment.interpolate` replaces its markers when
  it is evaluated. -/
  | string (text : String)
  /-- The value bound to a name. -/
  | identifier (name : String) (line : Nat)
  /-- An operator applied to two operands. -/
  | binary (op : BinaryOp) (left right : Expression) (line : Nat)
  /-- A list of the values of some expressions. -/
  | list (items : List Expression)
  /-- A call of a named function. -/
  | call (name : String) (arguments : List Expression) (line : Nat)

/-- A statement. `line` is the line of its first token. -/
inductive Statement where
  /-- Bind a name to the value of an expression. -/
  | assign (name : String) (value : Expression) (line : Nat)
  /-- Write the value of an expression on a line of its own. -/
  | write (value : Expression) (line : Nat)
  /-- Bind a name to the next line of the input. -/
  | read (name : String) (line : Nat)
  /-- Bind a name to a random integer between zero and a bound. -/
  | random (name : String) (bound : Expression) (line : Nat)
  /-- Define a function. A body written as one expression is a list of one `evaluate`. -/
  | define (name : String) (parameters : List String) (body : List Statement) (line : Nat)
  /-- Evaluate an expression: a call in a program, or the one expression of a short body. -/
  | evaluate (value : Expression) (line : Nat)

/-- A program is a list of statements. -/
abbrev Program := List Statement

namespace Statement

/-- The line of a statement, at which `Event.executing` shows it. -/
def line : Statement → Nat
  | .assign _ _ line => line
  | .write _ line => line
  | .read _ line => line
  | .random _ _ line => line
  | .define _ _ _ line => line
  | .evaluate _ line => line

/-- How diagnostics name a statement. -/
def description : Statement → String
  | .assign name _ _ => "assignment to `" ++ name ++ "`"
  | .write _ _ => "write"
  | .read name _ => "read into `" ++ name ++ "`"
  | .random name _ _ => "random into `" ++ name ++ "`"
  | .define name _ _ _ => "definition of `" ++ name ++ "`"
  | .evaluate (.call name _ _) _ => "call to `" ++ name ++ "`"
  | .evaluate _ _ => "function result"

end Statement

end Scriptlet
