import Scriptlet.Syntax

/-!
# Printed trees

Expressions and statements as parenthesised text: the operator or keyword first, then the parts.

* `Expression.printed` and `Statement.printed` are the texts of one tree.
-/

namespace Scriptlet

mutual

/-- The parenthesised text of an expression. -/
def Expression.printed : Expression → String
  | .literal value => toString value
  | .string text => "\"" ++ text ++ "\""
  | .identifier name _ => name
  | .binary op left right _ =>
    "(" ++ op.symbol ++ " " ++ left.printed ++ " " ++ right.printed ++ ")"
  | .list items => "[" ++ String.intercalate ", " (printedAll items) ++ "]"
  | .call name arguments _ =>
    "(" ++ String.intercalate " " (["call", name] ++ printedAll arguments) ++ ")"

/-- The texts of some expressions, each as `Expression.printed`. -/
def Expression.printedAll : List Expression → List String
  | [] => []
  | e :: es => e.printed :: printedAll es

end

mutual

/-- The parenthesised text of a statement. That of `evaluate` is the text of its expression. -/
def Statement.printed : Statement → String
  | .assign name value _ => "(assign " ++ name ++ " " ++ value.printed ++ ")"
  | .write value _ => "(write " ++ value.printed ++ ")"
  | .read name _ => "(read " ++ name ++ ")"
  | .random name bound _ => "(random " ++ name ++ " " ++ bound.printed ++ ")"
  | .define name parameters body _ =>
    let header := ["function", name, "(" ++ String.intercalate " " parameters ++ ")"]
    "(" ++ String.intercalate " " (header ++ printedAll body) ++ ")"
  | .evaluate value _ => value.printed

/-- The texts of some statements, each as `Statement.printed`. -/
def Statement.printedAll : List Statement → List String
  | [] => []
  | s :: ss => s.printed :: printedAll ss

end

end Scriptlet
