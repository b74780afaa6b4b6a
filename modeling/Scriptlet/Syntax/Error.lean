import Scriptlet.Token

/-!
# Syntax errors

A syntax error says what was expected and where: at the first token that no program can hold there,
or at the end of the tokens when more of them could have completed a program.

* `Expectation` lists what can be expected, with its wording.
* `SyntaxError.expecting` is the error of a reader that stands in front of some tokens.
-/

namespace Scriptlet

/-- What a reader of tokens can be waiting for. Every place at which a phrase can be refused
has one. -/
inductive Expectation where
  | statement
  | expression
  | assignOrArguments
  | callEnd
  | readOpen
  | readClose
  | readEnd
  | randomOpen
  | randomClose
  | randomEnd
  | assignmentEnd
  | writeOpen
  | writeClose
  | writeEnd
  | functionName
  | functionOpen
  | parameterName
  | distinctParameter
  | parameterSeparator
  | bodyColon
  | shortBodyColon
  | shortBodyEnd
  | blockEnd
  | argumentSeparator
  | elementSeparator
  | groupClose
  deriving DecidableEq

/-- The wording of an expectation. -/
def Expectation.text : Expectation → String
  | .statement => "Expect statement."
  | .expression => "Expect expression."
  | .assignOrArguments => "Expect '=' or '(' after identifier."
  | .callEnd => "Expect ';' after function call."
  | .readOpen => "Expect '(' after 'read'."
  | .readClose => "Expect ')' after 'read('."
  | .readEnd => "Expect ';' after read."
  | .randomOpen => "Expect '(' after 'random'."
  | .randomClose => "Expect ')' after random bound."
  | .randomEnd => "Expect ';' after random."
  | .assignmentEnd => "Expect ';' after assignment."
  | .writeOpen => "Expect '(' after 'write'."
  | .writeClose => "Expect ')' after value."
  | .writeEnd => "Expect ';' after write."
  | .functionName => "Expect function name."
  | .functionOpen => "Expect '(' after function name."
  | .parameterName => "Expect parameter name."
  | .distinctParameter => "Duplicate parameter name."
  | .parameterSeparator => "Expect ',' or ')' after parameter."
  | .bodyColon => "Expect ':' or ', :' after parameter list."
  | .shortBodyColon => "Expect ':' after ','."
  | .shortBodyEnd => "Expect ';' after function body."
  | .blockEnd => "Expect 'end' after function body."
  | .argumentSeparator => "Expect ',' or ')' after argument."
  | .elementSeparator => "Expect ',' or ']' after list element."
  | .groupClose => "Expect ')' after expression."

/-- A syntax error. A program has at most one, as its reading ends there. -/
inductive SyntaxError where
  /-- The token with this text and line cannot stand where it does. -/
  | unexpectedToken (lexeme : String) (line : Nat) (expected : Expectation)
  /-- The tokens end too early. -/
  | unexpectedEnd (expected : Expectation)
  deriving DecidableEq

namespace SyntaxError

/-- The error of a reader that waits for `expected` in front of `rest`. -/
def expecting (expected : Expectation) : List Token → SyntaxError
  | [] => .unexpectedEnd expected
  | token :: _ => .unexpectedToken token.lexeme token.line expected

/-- What was expected. -/
def expectation : SyntaxError → Expectation
  | .unexpectedToken _ _ expected => expected
  | .unexpectedEnd expected => expected

/-- The message of a syntax error. That of `unexpectedEnd` has no line. -/
def message : SyntaxError → String
  | .unexpectedToken lexeme line expected =>
    "[line " ++ toString line ++ "] Error at '" ++ lexeme ++ "': " ++ expected.text
  | .unexpectedEnd expected =>
    "Error at end: unexpected end of input. " ++ expected.text

@[simp]
theorem expectation_expecting (expected : Expectation) (rest : List Token) :
    (expecting expected rest).expectation = expected := by
  cases rest <;> rfl

end SyntaxError

end Scriptlet
