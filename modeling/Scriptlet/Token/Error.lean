/-!
# Lexical errors

A lexical error names what is wrong with a piece of source text and the line on which the piece
starts.
-/

namespace Scriptlet

/-- What is wrong with a piece of source text. -/
inductive LexicalError.Cause where
  /-- No token starts with this character. -/
  | unexpectedCharacter (found : Char)
  /-- A string literal is not closed on its line. -/
  | unterminatedString
  /-- A block comment is not closed. -/
  | unterminatedComment
  /-- A number literal is greater than `Integer.greatest`. -/
  | numberOutOfRange (digits : String)
  deriving DecidableEq

/-- A lexical error at its line. -/
structure LexicalError where
  /-- What is wrong. -/
  cause : LexicalError.Cause
  /-- The line on which the offending piece starts. -/
  line : Nat
  deriving DecidableEq

namespace LexicalError

/-- The wording of a cause. -/
def Cause.text : Cause → String
  | .unexpectedCharacter found => "Unexpected character: " ++ found.toString
  | .unterminatedString => "Unterminated string."
  | .unterminatedComment => "Unterminated block comment."
  | .numberOutOfRange digits => "Number literal out of range: " ++ digits

/-- The message of a lexical error: its line and `Cause.text`. -/
def message (error : LexicalError) : String :=
  "[line " ++ toString error.line ++ "] Error: " ++ error.cause.text

end LexicalError

end Scriptlet
