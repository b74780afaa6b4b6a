/-!
# Tokens

A token is a kind, the text it was read from and the line it stands on. Literals and names carry
their payload in the kind, so that a reader of tokens never looks at the text again.

* `Token.symbols` lists the operators and punctuation marks with their spelling.
* `Token.reservedWords` lists the keywords, each with its two spellings.
* `Token.text` is the line that shows a token.
-/

namespace Scriptlet

/-- What a token is. -/
inductive Token.Kind where
  | leftParen
  | rightParen
  | leftBracket
  | rightBracket
  | star
  | comma
  | colon
  | plus
  | minus
  | semicolon
  | slash
  | assign
  | concat
  | greater
  | less
  /-- A string literal, with the text between its quotes. -/
  | string (text : String)
  /-- A number literal, with its value. -/
  | number (value : Int)
  /-- A name that is not reserved. -/
  | identifier (name : String)
  | write
  | read
  | random
  | function
  | endBlock
  deriving DecidableEq

/-- A token of a source text. `Piece.item?` makes them. -/
structure Token where
  /-- What the token is. -/
  kind : Token.Kind
  /-- The piece of source text that the token was read from. -/
  lexeme : String
  /-- The line on which the token starts, counted from one. -/
  line : Nat
  deriving DecidableEq

namespace Token

/-- The name of a kind of token, without its payload. -/
def Kind.label : Kind → String
  | .leftParen => "LEFT_PAREN"
  | .rightParen => "RIGHT_PAREN"
  | .leftBracket => "LEFT_BRACKET"
  | .rightBracket => "RIGHT_BRACKET"
  | .star => "STAR"
  | .comma => "COMMA"
  | .colon => "COLON"
  | .plus => "PLUS"
  | .minus => "MINUS"
  | .semicolon => "SEMICOLON"
  | .slash => "SLASH"
  | .assign => "ASSIGN"
  | .concat => "CONCAT"
  | .greater => "GREATER"
  | .less => "LESS"
  | .string _ => "STRING"
  | .number _ => "NUMBER"
  | .identifier _ => "IDENTIFIER"
  | .write => "WRITE"
  | .read => "READ"
  | .random => "RANDOM"
  | .function => "FUNCTION"
  | .endBlock => "END"

/-- The operators and punctuation marks with their spelling. A spelling stands before every
proper beginning of it, so that the first spelling that a text starts with is the longest. -/
def symbols : List (List Char × Kind) :=
  [(['/', '\\'], .greater), (['\\', '/'], .less), (['<', '>'], .concat), (['('], .leftParen),
   ([')'], .rightParen), (['['], .leftBracket), ([']'], .rightBracket), (['*'], .star),
   ([','], .comma), ([':'], .colon), (['+'], .plus), (['-'], .minus), ([';'], .semicolon),
   (['/'], .slash), (['='], .assign)]

/-- The reserved words. Every keyword has an English and a Portuguese spelling. -/
def reservedWords : List (String × Kind) :=
  [("write", .write), ("ESCREVER", .write), ("read", .read), ("ENTRADA", .read),
   ("random", .random), ("ALEATORIO", .random), ("function", .function), ("FUNCAO", .function),
   ("end", .endBlock), ("FIM", .endBlock)]

/-- The kind of token that `word` is: a keyword when it is in `reservedWords`, a name
otherwise. -/
def Kind.ofWord (word : String) : Kind :=
  (reservedWords.lookup word).getD (.identifier word)

/-- The line that shows a token: `Kind.label`, its text and its line number. -/
def text (token : Token) : String :=
  token.kind.label ++ " " ++ token.lexeme ++ " " ++ toString token.line

theorem Kind.ofWord_eq_identifier {word : String} (h : reservedWords.lookup word = none) :
    Kind.ofWord word = .identifier word := by
  simp [Kind.ofWord, h]

end Token

end Scriptlet
