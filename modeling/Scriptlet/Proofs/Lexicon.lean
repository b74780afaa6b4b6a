import Mathlib.Algebra.Group.Nat.Defs
import Scriptlet.Token.Stream

/-!
# The lexical grammar

What the pieces of a source text are, and which cut of a text into pieces is meant, without
reference to any reader: a piece is the longest text at its position that the lexical grammar has.

* `Lexeme` is the lexical grammar: blanks, comments, literals, words and symbols, each with what it
  stands for.
* `Longest` says that a piece is the longest lexeme that a text starts with.
* `Stray` is the piece of a text that starts with no lexeme.
* `Munch` cuts a text from left to right and collects what its pieces contribute.
-/

namespace Scriptlet.Lexicon

/-- An ASCII letter or an underscore. -/
def WordStart (c : Char) : Prop :=
  ('a' ≤ c ∧ c ≤ 'z') ∨ ('A' ≤ c ∧ c ≤ 'Z') ∨ c = '_'

/-- An ASCII digit. -/
def Digit (c : Char) : Prop :=
  '0' ≤ c ∧ c ≤ '9'

/-- The texts of words: a `WordStart`, then letters, underscores and digits, then perhaps one
mark. -/
inductive Word : List Char → Prop where
  | plain {c : Char} {word : List Char} (hstart : WordStart c)
      (hword : ∀ d ∈ word, WordStart d ∨ Digit d) : Word (c :: word)
  | marked {c : Char} {word : List Char} {mark : Char} (hstart : WordStart c)
      (hword : ∀ d ∈ word, WordStart d ∨ Digit d) (hmark : mark = '?' ∨ mark = '!') :
      Word (c :: (word ++ [mark]))

/-- The texts between the quotes of a string literal. A backslash takes the next character
with it, and no line is left. -/
inductive StringBody : List Char → Prop where
  | nil : StringBody []
  | plain {c : Char} {body : List Char} (hquote : c ≠ '"') (hbackslash : c ≠ '\\')
      (hnewline : c ≠ '\n') (hbody : StringBody body) : StringBody (c :: body)
  | escape {c : Char} {body : List Char} (hnewline : c ≠ '\n') (hbody : StringBody body) :
      StringBody ('\\' :: c :: body)

/-- The texts of block comments after their opening: they have a closing mark at the end and
no other one before it. -/
structure CommentBody (comment : List Char) : Prop where
  closed : ∃ body, comment = body ++ ['-', '}']
  first : ∀ before after, comment = before ++ '-' :: '}' :: after → after = []

/-- The pieces of the lexical grammar: what a text may be that is skipped, a token, or a
number out of range. All other faults are `Stray`. -/
inductive Lexeme : Piece → Prop where
  | blank {c : Char} (h : Text.isBlank c = true) : Lexeme ⟨[c], .skipped⟩
  /-- A line comment may go on up to the end of its line. -/
  | lineComment {comment : List Char} (h : '\n' ∉ comment) :
      Lexeme ⟨'-' :: '-' :: comment, .skipped⟩
  | blockComment {comment : List Char} (h : CommentBody comment) :
      Lexeme ⟨'{' :: '-' :: comment, .skipped⟩
  | string {body : List Char} (h : StringBody body) :
      Lexeme ⟨'"' :: (body ++ ['"']), .token (.string (String.ofList body))⟩
  | number {digits : List Char} (hne : digits ≠ []) (hdigits : ∀ c ∈ digits, Digit c)
      (h : Integer.ofDigits digits < 2 ^ 63) :
      Lexeme ⟨digits, .token (.number (Integer.ofDigits digits))⟩
  | numberOutOfRange {digits : List Char} (hne : digits ≠ []) (hdigits : ∀ c ∈ digits, Digit c)
      (h : 2 ^ 63 ≤ Integer.ofDigits digits) :
      Lexeme ⟨digits, .fault (.numberOutOfRange (String.ofList digits))⟩
  | keyword {word : List Char} {kind : Token.Kind} (h : Word word)
      (hreserved : (String.ofList word, kind) ∈ Token.reservedWords) : Lexeme ⟨word, .token kind⟩
  | name {word : List Char} (h : Word word)
      (hfree : ∀ kind, (String.ofList word, kind) ∉ Token.reservedWords) :
      Lexeme ⟨word, .token (.identifier (String.ofList word))⟩
  | symbol {spelling : List Char} {kind : Token.Kind} (h : (spelling, kind) ∈ Token.symbols) :
      Lexeme ⟨spelling, .token kind⟩

/-- The piece is the longest `Lexeme` that `text` starts with. -/
structure Longest (text : List Char) (piece : Piece) : Prop where
  lexeme : Lexeme piece
  start : piece.text <+: text
  longest : ∀ other, Lexeme other → other.text <+: text → other.text.length ≤ piece.text.length

/-- The piece that a text gives away when it starts with no lexeme: all of it when a block
comment is opened, and one character otherwise. -/
inductive Stray : List Char → Piece → Prop where
  | comment {text : List Char} :
      Stray ('{' :: '-' :: text) ⟨'{' :: '-' :: text, .fault .unterminatedComment⟩
  | quote {text : List Char} : Stray ('"' :: text) ⟨['"'], .fault .unterminatedString⟩
  | character {c : Char} {text : List Char} (hcomment : ¬ ['{', '-'] <+: c :: text)
      (hquote : c ≠ '"') : Stray (c :: text) ⟨[c], .fault (.unexpectedCharacter c)⟩

/-- The piece that `text` starts with: the `Longest` lexeme, or a `Stray` piece when there is
none. -/
inductive Cut (text : List Char) (piece : Piece) : Prop where
  | longest (h : Longest text piece)
  | stray (hnone : ∀ other, Lexeme other → ¬ other.text <+: text) (h : Stray text piece)

/-- In `Munch before text pieces items` the text, which stands after `before` in the source,
is cut into the pieces, and these contribute the items. A piece that is not skipped
contributes one item, on the line that is one more than the newlines in `before`. -/
inductive Munch : List Char → List Char → List Piece → List TokenItem → Prop where
  | done {before : List Char} : Munch before [] [] []
  | skipped {before piece rest : List Char} {pieces : List Piece} {items : List TokenItem}
      (hcut : Cut (piece ++ rest) ⟨piece, .skipped⟩)
      (hrest : Munch (before ++ piece) rest pieces items) :
      Munch before (piece ++ rest) (⟨piece, .skipped⟩ :: pieces) items
  | token {before piece rest : List Char} {kind : Token.Kind} {pieces : List Piece}
      {items : List TokenItem} (hcut : Cut (piece ++ rest) ⟨piece, .token kind⟩)
      (hrest : Munch (before ++ piece) rest pieces items) :
      Munch before (piece ++ rest) (⟨piece, .token kind⟩ :: pieces)
        (.ok ⟨kind, String.ofList piece, 1 + before.count '\n'⟩ :: items)
  | fault {before piece rest : List Char} {cause : LexicalError.Cause} {pieces : List Piece}
      {items : List TokenItem} (hcut : Cut (piece ++ rest) ⟨piece, .fault cause⟩)
      (hrest : Munch (before ++ piece) rest pieces items) :
      Munch before (piece ++ rest) (⟨piece, .fault cause⟩ :: pieces)
        (.error ⟨cause, 1 + before.count '\n'⟩ :: items)

end Scriptlet.Lexicon
