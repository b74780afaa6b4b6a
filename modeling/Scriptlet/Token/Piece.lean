import Scriptlet.Integer
import Scriptlet.Text.Blank
import Scriptlet.Token
import Scriptlet.Token.Error

/-!
# Pieces of source text

A source text is cut, from left to right, into nonempty pieces. A piece is skipped (a blank or a
comment), a token, or a fault. The cut is the longest match at each position: a word, a number, a
string literal, a comment or a symbol takes every character that it can.

* `Piece.first` cuts the first piece from a text, and `pieces` cuts a whole text.
* `Piece.first_text_append` and `flatMap_text_pieces`: no character is lost, doubled or moved.
-/

namespace Scriptlet

/-- What a piece of source text is. -/
inductive Piece.Content where
  /-- A blank or a comment. -/
  | skipped
  /-- A token of this kind. -/
  | token (kind : Token.Kind)
  /-- A piece at which no token can be read. -/
  | fault (cause : LexicalError.Cause)
  deriving DecidableEq

/-- A piece of source text. `Piece.first` gives only pieces with a nonempty `text`. -/
structure Piece where
  /-- The characters of the piece. -/
  text : List Char
  /-- What the piece is. -/
  content : Piece.Content
  deriving DecidableEq

namespace Piece

/-- A word starts with an ASCII letter or an underscore. -/
def isWordStart (c : Char) : Bool :=
  c.isAlpha || c == '_'

/-- A word goes on with ASCII letters, ASCII digits and underscores. -/
def isWordChar (c : Char) : Bool :=
  c.isAlphanum || c == '_'

/-- A word may end in one of these marks. -/
def isWordMark (c : Char) : Bool :=
  c == '?' || c == '!'

/-- The mark that closes a word, if one follows, and the text after it. One `isWordMark`
character is taken at most. -/
def wordMark : List Char → List Char × List Char
  | [] => ([], [])
  | c :: text => if isWordMark c then ([c], text) else ([], c :: text)

/-- The text of a block comment after its opening, up to and including the first closing mark,
and the text after it. -/
def closeComment : List Char → Option (List Char × List Char)
  | '-' :: '}' :: rest => some (['-', '}'], rest)
  | c :: text => (closeComment text).map fun (comment, rest) => (c :: comment, rest)
  | [] => none

/-- The text of a string literal after its opening quote, up to but excluding the closing
quote, and the text after that quote. A backslash takes the next character with it, so an
escaped quote does not close the literal. There is no literal when a newline or the end of the
text comes first. -/
def closeString : List Char → Option (List Char × List Char)
  | '"' :: rest => some ([], rest)
  | '\n' :: _ => none
  | '\\' :: '\n' :: _ => none
  | '\\' :: c :: text => (closeString text).map fun (body, rest) => ('\\' :: c :: body, rest)
  | ['\\'] => none
  | c :: text => (closeString text).map fun (body, rest) => (c :: body, rest)
  | [] => none

/-- The first of `Token.symbols` that `text` starts with, as a piece, and the text after it. -/
def symbol? (text : List Char) : Option (Piece × List Char) :=
  (Token.symbols.find? fun symbol => symbol.1.isPrefixOf text).map fun symbol =>
    (⟨symbol.1, .token symbol.2⟩, text.drop symbol.1.length)

/-- The token or fault that a run of digits is. `Integer.checked` tells them apart. -/
def ofDigits (digits : List Char) : Piece where
  text := digits
  content :=
    match Integer.checked (Integer.ofDigits digits) with
    | some value => .token (.number value)
    | none => .fault (.numberOutOfRange (String.ofList digits))

/-- The keyword or name that `word` is, by `Token.Kind.ofWord`. -/
def ofWord (word : List Char) : Piece where
  text := word
  content := .token (.ofWord (String.ofList word))

/-- The string literal with the text `body` between its quotes. -/
def ofStringBody (body : List Char) : Piece where
  text := '"' :: (body ++ ['"'])
  content := .token (.string (String.ofList body))

/-- The first piece of the text `c :: text` and the text after the piece. The tests stand in
the order of precedence: a comment comes before the symbol that it starts with. -/
def first (c : Char) (text : List Char) : Piece × List Char :=
  if Text.isBlank c then
    (⟨[c], .skipped⟩, text)
  else if c = '-' ∧ text.head? = some '-' then
    (⟨c :: text.takeWhile (· != '\n'), .skipped⟩, text.dropWhile (· != '\n'))
  else if c = '{' ∧ text.head? = some '-' then
    match closeComment text.tail with
    | some (comment, rest) => (⟨c :: '-' :: comment, .skipped⟩, rest)
    | none => (⟨c :: text, .fault .unterminatedComment⟩, [])
  else if c = '"' then
    match closeString text with
    | some (body, rest) => (ofStringBody body, rest)
    | none => (⟨[c], .fault .unterminatedString⟩, text)
  else if c.isDigit then
    (ofDigits (c :: text.takeWhile Char.isDigit), text.dropWhile Char.isDigit)
  else if isWordStart c then
    let (mark, rest) := wordMark (text.dropWhile isWordChar)
    (ofWord (c :: (text.takeWhile isWordChar ++ mark)), rest)
  else
    (symbol? (c :: text)).getD (⟨[c], .fault (.unexpectedCharacter c)⟩, text)

theorem wordMark_append (text : List Char) : (wordMark text).1 ++ (wordMark text).2 = text := by
  unfold wordMark
  split
  · rfl
  · split <;> rfl

theorem closeComment_append {text comment rest : List Char}
    (h : closeComment text = some (comment, rest)) : comment ++ rest = text := by
  fun_induction closeComment text generalizing comment rest with
  | case1 after =>
    simp only [Option.some.injEq, Prod.mk.injEq] at h
    simp [← h.1, ← h.2]
  | case2 c text _ ih =>
    simp only [Option.map_eq_some_iff, Prod.exists, Prod.mk.injEq] at h
    obtain ⟨inner, after, hinner, rfl, rfl⟩ := h
    simp [ih hinner]
  | case3 => simp at h

/-- What `closeString` gives, with the quote that closes the literal, makes up the text. -/
theorem closeString_append {text body rest : List Char}
    (h : closeString text = some (body, rest)) : body ++ '"' :: rest = text := by
  fun_induction closeString text generalizing body rest with
  | case1 text => simp_all
  | case2 => simp at h
  | case3 => simp at h
  | case4 c text _ ih =>
    simp only [Option.map_eq_some_iff, Prod.exists, Prod.mk.injEq] at h
    obtain ⟨inner, after, hinner, rfl, rfl⟩ := h
    simp [ih hinner]
  | case5 => simp at h
  | case6 c text _ _ _ _ _ ih =>
    simp only [Option.map_eq_some_iff, Prod.exists, Prod.mk.injEq] at h
    obtain ⟨inner, after, hinner, rfl, rfl⟩ := h
    simp [ih hinner]
  | case7 => simp at h

/-- A symbol and the text after it make up the text, and the symbol is not empty. -/
theorem symbol?_append {text rest : List Char} {piece : Piece}
    (h : symbol? text = some (piece, rest)) : piece.text ++ rest = text ∧ piece.text ≠ [] := by
  simp only [symbol?, Option.map_eq_some_iff, Prod.mk.injEq] at h
  obtain ⟨symbol, hfind, rfl, rfl⟩ := h
  have hstart := List.find?_some hfind
  have hmem := List.mem_of_find?_eq_some hfind
  obtain ⟨after, rfl⟩ := List.isPrefixOf_iff_prefix.mp hstart
  refine ⟨by simp, ?_⟩
  have hall : ∀ s ∈ Token.symbols, s.1 ≠ [] := by decide
  exact hall symbol hmem

/-- Cutting the `first` piece from a text loses no character. -/
theorem first_text_append (c : Char) (text : List Char) :
    (first c text).1.text ++ (first c text).2 = c :: text := by
  -- Each branch takes a beginning of the text and leaves what is behind it.
  unfold first
  split
  · rfl
  split
  · simp
  split
  · rename_i h
    obtain ⟨hc, ht⟩ := h
    split
    · rename_i comment rest hclose
      have := closeComment_append hclose
      cases text with
      | nil => simp at ht
      | cons d ds => simp_all
    · simp
  split
  · rename_i hc
    split
    · rename_i body rest hclose
      have := closeString_append hclose
      simp [ofStringBody, hc, this]
    · rfl
  split
  · simp [ofDigits]
  split
  · simp [ofWord, wordMark_append]
  · cases hs : symbol? (c :: text) with
    | none => rfl
    | some found => exact (symbol?_append hs).1

theorem first_text_ne_nil (c : Char) (text : List Char) : (first c text).1.text ≠ [] := by
  unfold first
  repeat' split
  all_goals try simp [ofStringBody, ofDigits, ofWord]
  cases hs : symbol? (c :: text) with
  | none => simp
  | some found => exact (symbol?_append hs).2

/-- What is left after the `first` piece is shorter than the text, so that `pieces` ends. -/
theorem length_first_rest (c : Char) (text : List Char) :
    (first c text).2.length < (c :: text).length := by
  have happend := congrArg List.length (first_text_append c text)
  have hpos := List.length_pos_iff.mpr (first_text_ne_nil c text)
  simp only [List.length_append] at happend
  omega

/-- The number of newlines in a piece. Lines advance by nothing else. -/
def newlines (piece : Piece) : Nat :=
  piece.text.count '\n'

end Piece

/-- The pieces of a text, in order. -/
def pieces : List Char → List Piece
  | [] => []
  | c :: text => (Piece.first c text).1 :: pieces (Piece.first c text).2
termination_by text => text.length
decreasing_by exact Piece.length_first_rest c text

/-- The `pieces` of a text make up the text: no character is lost, doubled or moved. -/
theorem flatMap_text_pieces (text : List Char) : (pieces text).flatMap Piece.text = text := by
  fun_induction pieces text with
  | case1 => rfl
  | case2 c text ih => simp [ih, Piece.first_text_append]

end Scriptlet
