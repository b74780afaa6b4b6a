import Scriptlet.Token.Piece

/-!
# The token stream of a source text

Each piece that is not skipped gives one item: its token or its lexical error, at the line on which
the piece starts. Only newline characters advance the line.

* `tokenStream` is the stream, with errors in place.
* `lex` splits it into the tokens and the errors.
-/

namespace Scriptlet

/-- An item of a token stream: a token, or the error that stands in its place. -/
abbrev TokenItem := Except LexicalError Token

namespace Piece

/-- What a piece that starts on `line` contributes to the token stream: nothing when it is
skipped, otherwise one item at that line. -/
def item? (piece : Piece) (line : Nat) : Option TokenItem :=
  match piece.content with
  | .skipped => none
  | .token kind => some (.ok ⟨kind, String.ofList piece.text, line⟩)
  | .fault cause => some (.error ⟨cause, line⟩)

end Piece

/-- The items of consecutive pieces, the first of which starts on `line`. -/
def itemsOfPieces (line : Nat) : List Piece → List TokenItem
  | [] => []
  | piece :: rest => (piece.item? line).toList ++ itemsOfPieces (line + piece.newlines) rest

/-- The token stream of `source`. Lines are counted from one. -/
def tokenStream (source : String) : List TokenItem :=
  itemsOfPieces 1 (pieces source.toList)

/-- The tokens among `items`, in order. -/
def tokensOf (items : List TokenItem) : List Token :=
  items.filterMap fun item =>
    match item with
    | .ok token => some token
    | .error _ => none

/-- The lexical errors among `items`, in order. -/
def errorsOf (items : List TokenItem) : List LexicalError :=
  items.filterMap fun item =>
    match item with
    | .ok _ => none
    | .error error => some error

/-- The tokens and the lexical errors of `source`. -/
def lex (source : String) : List Token × List LexicalError :=
  (tokensOf (tokenStream source), errorsOf (tokenStream source))

/-- The items of `ps ++ qs` are those of `ps` and then those of `qs`, which start on the line
that the text of `ps` ends on. -/
theorem itemsOfPieces_append (line : Nat) (ps qs : List Piece) :
    itemsOfPieces line (ps ++ qs) =
      itemsOfPieces line ps ++ itemsOfPieces (line + (ps.flatMap Piece.text).count '\n') qs := by
  induction ps generalizing line with
  | nil => simp [itemsOfPieces]
  | cons p ps ih => simp [itemsOfPieces, ih, Piece.newlines, Nat.add_assoc]

end Scriptlet
