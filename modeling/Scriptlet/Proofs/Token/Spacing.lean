import Scriptlet.Proofs.Token.Layout

/-!
# Spaced tokens

Tokens can be written one behind the other with separators in front of, between and behind them. A
separator begins with a blank and goes on with blanks and comments of all sorts. Whatever separators
are chosen, reading such a text gives the tokens that were written, each on its line.

* `Trivia` are the texts that stand for nothing: blanks and closed comments in a row.
* `Separator` and `WrittenToken` carry the proof that they are what they should be.
* `spacedText` is the text of some tokens with their separators, and `placed` the tokens at the
  lines on which they stand in it.
* `lex_spacedText` is the result.
-/

namespace Scriptlet.Lexicon

/-- The texts that stand for nothing: blanks, line comments with the newlines that end them,
and closed block comments, in any number and order. -/
inductive Trivia : List Char → Prop where
  | nil : Trivia []
  | blank {c : Char} {rest : List Char} (h : Text.isBlank c = true) (hrest : Trivia rest) :
      Trivia (c :: rest)
  | lineComment {comment rest : List Char} (h : '\n' ∉ comment) (hrest : Trivia rest) :
      Trivia ('-' :: '-' :: comment ++ '\n' :: rest)
  | blockComment {comment rest : List Char} (h : CommentBody comment) (hrest : Trivia rest) :
      Trivia ('{' :: '-' :: comment ++ rest)

/-- What keeps tokens apart: a blank, and any `Trivia` behind it. -/
structure Separator where
  /-- The blank that the separator begins with; the lexeme in front of it does not go on with
  it. -/
  first : Char
  /-- What follows this blank, possibly nothing. -/
  rest : List Char
  isBlank : Text.isBlank first = true
  trivia : Trivia rest

def Separator.text (separator : Separator) : List Char :=
  separator.first :: separator.rest

/-- A token as it is written: a `kind` and some `lexeme` that spells it. -/
structure WrittenToken where
  /-- What the token is, payload included. -/
  kind : Token.Kind
  /-- The text that it is written with, one of those the grammar has for the `kind`. -/
  lexeme : List Char
  spells : Lexeme ⟨lexeme, .token kind⟩

/-- The text of the separator `lead` and of all `words`, each with the separator behind it. -/
def spacedText (lead : Separator) (words : List (WrittenToken × Separator)) : List Char :=
  lead.text ++ words.flatMap fun (word, separator) => word.lexeme ++ separator.text

/-- The tokens of `words` as they stand behind the text `before`: the line of each is one more
than the newlines in front of it. -/
def placed (before : List Char) : List (WrittenToken × Separator) → List Token
  | [] => []
  | (word, separator) :: words =>
    ⟨word.kind, String.ofList word.lexeme, 1 + before.count '\n'⟩ ::
      placed (before ++ (word.lexeme ++ separator.text)) words

theorem not_goesOn_of_commentBody {comment : List Char} (h : CommentBody comment) (c : Char) :
    ¬ GoesOn ('{' :: '-' :: comment) c := by
  rintro ⟨content, hlonger⟩
  obtain ⟨comment', hcomment', heq⟩ := hlonger.opening_cases rfl
  have htext : comment ++ [c] = comment' := by simpa using congrArg Piece.text heq
  obtain ⟨body, rfl⟩ := h.closed
  have hafter : [c] = [] := hcomment'.first body [c] (by simp [← htext])
  cases hafter

/-- By induction on `Trivia`: in front of any `rest` it contributes its newlines only. -/
theorem itemsOfPieces_trivia {gap : List Char} (h : Trivia gap) (rest : List Char) (line : Nat) :
    itemsOfPieces line (pieces (gap ++ rest)) =
      itemsOfPieces (line + gap.count '\n') (pieces rest) := by
  induction h generalizing line with
  | nil => rfl
  | @blank c gap hblank _ ih =>
    calc itemsOfPieces line (pieces ([c] ++ (gap ++ rest)))
        = itemsOfPieces (line + [c].count '\n') (pieces (gap ++ rest)) :=
          itemsOfPieces_gap (.blank hblank) (fun _ _ => not_goesOn_of_isBlank hblank) line
      _ = itemsOfPieces (line + ([c] ++ gap).count '\n') (pieces rest) := by
          rw [ih, List.count_append, Nat.add_assoc]
  | @lineComment comment gap hline _ ih =>
    -- The comment ends in front of its newline, which is a blank of its own.
    have hnewline : ∀ d ∈ ('\n' :: (gap ++ rest)).head?, ¬ GoesOn ('-' :: '-' :: comment) d := by
      intro d hd
      obtain rfl : '\n' = d := by simpa using hd
      exact not_goesOn_newline (List.cons_ne_nil _ _)
    calc itemsOfPieces line (pieces ('-' :: '-' :: comment ++ '\n' :: gap ++ rest))
        = itemsOfPieces line (pieces ('-' :: '-' :: comment ++ '\n' :: (gap ++ rest))) := by
          rw [List.append_assoc]; rfl
      _ = itemsOfPieces (line + ('-' :: '-' :: comment).count '\n')
            (pieces (['\n'] ++ (gap ++ rest))) :=
          itemsOfPieces_gap (.lineComment hline) hnewline line
      _ = itemsOfPieces (line + ('-' :: '-' :: comment).count '\n' + ['\n'].count '\n')
            (pieces (gap ++ rest)) :=
          itemsOfPieces_gap (.blank Text.isBlank_newline)
            (fun _ _ => not_goesOn_of_isBlank Text.isBlank_newline) _
      _ = itemsOfPieces (line + ('-' :: '-' :: comment ++ (['\n'] ++ gap)).count '\n')
            (pieces rest) := by
          rw [ih, List.count_append, List.count_append, Nat.add_assoc, Nat.add_assoc]
  | @blockComment comment gap hbody _ ih =>
    calc itemsOfPieces line (pieces ('{' :: '-' :: comment ++ gap ++ rest))
        = itemsOfPieces line (pieces ('{' :: '-' :: comment ++ (gap ++ rest))) := by
          rw [List.append_assoc]
      _ = itemsOfPieces (line + ('{' :: '-' :: comment).count '\n') (pieces (gap ++ rest)) :=
          itemsOfPieces_gap (.blockComment hbody)
            (fun d _ => not_goesOn_of_commentBody hbody d) line
      _ = itemsOfPieces (line + ('{' :: '-' :: comment ++ gap).count '\n') (pieces rest) := by
          rw [ih, List.count_append, Nat.add_assoc]

theorem itemsOfPieces_separator (separator : Separator) (rest : List Char) (line : Nat) :
    itemsOfPieces line (pieces (separator.text ++ rest)) =
      itemsOfPieces (line + separator.text.count '\n') (pieces rest) :=
  itemsOfPieces_trivia (.blank separator.isBlank separator.trivia) rest line

/-- By induction on `words`: behind `before` they are read as the tokens that `placed` gives. -/
theorem itemsOfPieces_words (before : List Char) (words : List (WrittenToken × Separator)) :
    itemsOfPieces (1 + before.count '\n')
        (pieces (words.flatMap fun (word, separator) => word.lexeme ++ separator.text)) =
      (placed before words).map .ok := by
  induction words generalizing before with
  | nil => rw [List.flatMap_nil, pieces]; rfl
  | cons entry words ih =>
    obtain ⟨word, separator⟩ := entry
    -- The separator begins with a blank, and a blank ends every token.
    have hends : ∀ c ∈ (separator.text ++ words.flatMap fun (word, separator) =>
        word.lexeme ++ separator.text).head?, ¬ GoesOn word.lexeme c := by
      intro c hc
      obtain rfl : separator.first = c := by simpa [Separator.text] using hc
      exact not_goesOn_of_token word.spells separator.isBlank
    have hplaced := ih (before ++ (word.lexeme ++ separator.text))
    rw [List.flatMap_cons, List.append_assoc, itemsOfPieces_token word.spells hends,
      itemsOfPieces_separator, placed, List.map_cons, ← hplaced]
    simp only [List.count_append, Nat.add_assoc]

/-- **Reading undoes writing, whatever the layout.** For any `words` and any separators in
front of, between and behind them, the `spacedText` has no lexical error, and its tokens are
those that were written, in order, with the lexemes they were written with and each on its
line. -/
theorem lex_spacedText (lead : Separator) (words : List (WrittenToken × Separator)) :
    lex (String.ofList (spacedText lead words)) = (placed lead.text words, []) := by
  rw [lex_eq_iff, tokenStream, String.toList_ofList, spacedText, itemsOfPieces_separator,
    itemsOfPieces_words]

/-- Pieces that would run together are kept apart: a minus sign and a comment, a slash and a
backslash, a word and its mark. -/
example : lex " - --\" -\x7b\n / \x7b---\x7d\\/ 007 x? \"\\\"\" FIM" =
    ([⟨.minus, "-", 1⟩, ⟨.slash, "/", 2⟩, ⟨.less, "\\/", 2⟩, ⟨.number 7, "007", 2⟩,
      ⟨.identifier "x?", "x?", 2⟩, ⟨.string "\\\"", "\"\\\"\"", 2⟩,
      ⟨.endBlock, "FIM", 2⟩], []) := by
  cbv

end Scriptlet.Lexicon
