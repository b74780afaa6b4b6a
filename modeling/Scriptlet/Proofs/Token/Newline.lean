import Mathlib
import Scriptlet.Proofs.Syntax.Relabelling
import Scriptlet.Proofs.Token.Boundary

/-!
# Newlines between texts

A newline is a hard boundary. Whatever is open at the end of a text, unless it is a block comment,
ends in front of a newline as it ends at the end of the text: no lexeme but a block comment goes on
behind a newline, and where no lexeme starts none starts because a newline follows.

* `Lexeme.newline_cases` says which lexemes have a newline, and `Cut.append_newline` that a piece
  stays what it is when a newline and another text come behind it.
* `pieces_append_newline`: the newline is a piece of its own between the pieces of both texts.
* `TokenItem.mapLine` moves an item of a token stream to another line, and `lineCount` is how far
  the items of the second text are moved.
* `tokenStream_continues_below` is the result for token streams, with lexical errors in place.
-/

namespace Scriptlet

namespace Lexicon

variable {text rest : List Char} {piece : Piece}

/-! ## Lexemes with newlines -/

/-- The lexemes with a newline in them are the newline itself and block comments. -/
theorem Lexeme.newline_cases (h : Lexeme piece) (hmem : '\n' ∈ piece.text) :
    piece.text = ['\n'] ∨ ['{', '-'] <+: piece.text := by
  obtain ⟨first, tail, htext⟩ := List.exists_cons_of_ne_nil h.text_ne_nil
  have hcases := h.opening_cases htext
  rcases hopening : opening first <;> rw [hopening] at hcases
  case blank =>
    subst hcases
    obtain rfl : '\n' = first := List.mem_singleton.mp hmem
    exact .inl rfl
  case brace =>
    obtain ⟨comment, -, rfl⟩ := hcases
    exact .inr (List.prefix_append ['{', '-'] comment)
  -- All other lexemes are on one line.
  all_goals exfalso
  case quote =>
    obtain ⟨body, hbody, rfl⟩ := hcases
    have hbody' : '\n' ∈ body := by simpa [Piece.ofStringBody] using hmem
    exact hbody.oneLine hbody'
  case digit => exact absurd (hcases.1 _ hmem) (by decide)
  case letter => exact hcases.1.not_isBlank _ hmem Text.isBlank_newline
  case mark =>
    rcases hcases with ⟨comment, hcomment, rfl⟩ | ⟨symbol, hsymbol, rfl⟩
    · exact hcomment (by simpa using hmem)
    · have hblank := any_isBlank_symbol symbol hsymbol
      rw [List.any_eq_false] at hblank
      exact hblank _ hmem Text.isBlank_newline

theorem prefix_of_prefix_append_newline {front : List Char} (h : front <+: text ++ '\n' :: rest)
    (hline : '\n' ∉ front) : front <+: text := by
  rcases List.prefix_or_prefix_of_prefix h (List.prefix_append text ('\n' :: rest)) with
    hfront | ⟨more, rfl⟩
  · exact hfront
  · rcases more with _ | ⟨c, more⟩
    · simp
    · rw [List.prefix_append_right_inj, List.cons_prefix_cons] at h
      exact absurd (h.1 ▸ List.mem_append_right text List.mem_cons_self) hline

/-! ## Pieces in front of a newline -/

/-- Apart from an unclosed comment, a `Stray` piece stays stray when a newline and some text
`below` come behind it. -/
theorem Stray.append_newline (h : Stray (piece.text ++ rest) piece)
    (hcomment : piece.content ≠ .fault .unterminatedComment) (below : List Char) :
    Stray (piece.text ++ (rest ++ '\n' :: below)) piece := by
  generalize htext : piece.text ++ rest = text at h
  rcases h with _ | _ | @⟨c, after, hopen, hquote⟩
  · exact absurd rfl hcomment
  · exact .quote
  · obtain rfl : rest = after := (List.cons.inj htext).2
    refine .character (fun hopen' => hopen ?_) hquote
    have hopened : ['{', '-'] <+: (c :: rest) ++ '\n' :: below := hopen'
    exact prefix_of_prefix_append_newline hopened (by decide)

/-- Apart from an unclosed comment, where no lexeme started none starts when a newline and
some text `below` come behind. -/
theorem no_lexeme_append_newline (hstray : Stray text piece)
    (hcomment : piece.content ≠ .fault .unterminatedComment)
    (hnone : ∀ other, Lexeme other → ¬ other.text <+: text) (below : List Char) :
    ∀ other, Lexeme other → ¬ other.text <+: text ++ '\n' :: below := by
  intro other hlexeme hstart
  by_cases hmem : '\n' ∈ other.text
  · rcases hlexeme.newline_cases hmem with hnewline | hbrace
    · -- The text is not empty, so the newline would be its first character.
      obtain ⟨c, tail, rfl⟩ : ∃ c tail, text = c :: tail := by
        rcases hstray with _ | _ | _ <;> exact ⟨_, _, rfl⟩
      rw [hnewline, List.cons_append, List.cons_prefix_cons] at hstart
      exact hnone other hlexeme (by rw [hnewline, hstart.1]; exact List.prefix_append [c] tail)
    · -- A block comment would have been opened in the text.
      have hopen : ['{', '-'] <+: text :=
        prefix_of_prefix_append_newline (hbrace.trans hstart) (by decide)
      rcases hstray with _ | _ | ⟨hopen', -⟩
      · exact hcomment rfl
      · exact absurd (List.cons_prefix_cons.mp hopen).1 (by decide)
      · exact hopen' hopen
  · exact hnone other hlexeme (prefix_of_prefix_append_newline hstart hmem)

/-- Apart from an unclosed comment, a `Cut` stays one when a newline and some text `below`
come behind it. -/
theorem Cut.append_newline (h : Cut (piece.text ++ rest) piece)
    (hcomment : piece.content ≠ .fault .unterminatedComment) (below : List Char) :
    Cut (piece.text ++ (rest ++ '\n' :: below)) piece := by
  rcases h with hlongest | ⟨hnone, hstray⟩
  · obtain ⟨hlexeme, hends⟩ := longest_append_iff.mp hlongest
    refine .longest (longest_append_iff.mpr ⟨hlexeme, fun c hc => ?_⟩)
    -- The last piece is followed by the newline, the others by what followed them before.
    rcases rest with _ | ⟨d, rest⟩
    · obtain rfl : '\n' = c := Option.some.inj hc
      exact not_goesOn_newline hlexeme.text_ne_nil
    · exact hends c hc
  · refine .stray ?_ (hstray.append_newline hcomment below)
    rw [← List.append_assoc]
    exact no_lexeme_append_newline hstray hcomment hnone below

/-- If `text` leaves no block comment open, the newline behind it is a piece of its own,
between the pieces of `text` and those of the text `below`. -/
theorem pieces_append_newline
    (h : ∀ piece ∈ pieces text, piece.content ≠ .fault .unterminatedComment) (below : List Char) :
    pieces (text ++ '\n' :: below) = pieces text ++ ⟨['\n'], .skipped⟩ :: pieces below := by
  fun_induction pieces text with
  | case1 =>
    let newline : Piece := ⟨['\n'], .skipped⟩
    have hcut : Cut (newline.text ++ below) newline :=
      .longest (best_blank Text.isBlank_newline below).longest
    exact pieces_of_cut hcut
  | case2 c text ih =>
    rw [List.forall_mem_cons] at h
    have happend := Piece.first_text_append c text
    have hcut := (cut_iff_first c text _).mpr rfl
    rw [← happend] at hcut
    -- The first piece is cut as before, and the text behind it is shorter.
    have hbelow := pieces_of_cut (hcut.append_newline h.1 below)
    rw [← happend, List.append_assoc, hbelow, ih h.2, List.cons_append]

end Lexicon

/-! ## Token streams -/

def lineCount (source : String) : Nat :=
  1 + source.toList.count '\n'

/-- The item with its line mapped by `f`, be it a token or an error. -/
def TokenItem.mapLine (f : Nat → Nat) : TokenItem → TokenItem
  | .ok token => .ok (token.mapLine f)
  | .error error => .error { error with line := f error.line }

/-- Starting `k` lines further down moves every item by `k` lines. -/
theorem itemsOfPieces_add (line k : Nat) (ps : List Piece) :
    itemsOfPieces (line + k) ps = (itemsOfPieces line ps).map (TokenItem.mapLine (· + k)) := by
  induction ps generalizing line with
  | nil => rfl
  | cons piece rest ih =>
    have hitem : piece.item? (line + k) = (piece.item? line).map (TokenItem.mapLine (· + k)) := by
      unfold Piece.item?
      rcases piece.content <;> rfl
    rw [itemsOfPieces, itemsOfPieces, Nat.add_right_comm, ih, hitem, List.map_append]
    rcases piece.item? line <;> rfl

theorem exists_error_of_mem_pieces {ps : List Piece} {piece : Piece} {cause : LexicalError.Cause}
    (h : piece ∈ ps) (hcause : piece.content = .fault cause) (line : Nat) :
    ∃ line', .error ⟨cause, line'⟩ ∈ itemsOfPieces line ps := by
  induction ps generalizing line with
  | nil => cases h
  | cons first rest ih =>
    rw [itemsOfPieces]
    rcases List.mem_cons.mp h with rfl | h
    · refine ⟨line, List.mem_append_left _ ?_⟩
      rw [Piece.item?, hcause]
      exact List.mem_singleton_self _
    · obtain ⟨line', hline'⟩ := ih h (line + first.newlines)
      exact ⟨line', List.mem_append_right _ hline'⟩

/-- The condition `h` on the errors of `tokenStream` is one on the `pieces` of the source. -/
theorem content_ne_of_tokenStream {source : String}
    (h : ∀ line, .error ⟨.unterminatedComment, line⟩ ∉ tokenStream source) :
    ∀ piece ∈ pieces source.toList, piece.content ≠ .fault .unterminatedComment := by
  intro piece hpiece hcontent
  obtain ⟨line, hline⟩ := exists_error_of_mem_pieces hpiece hcontent 1
  exact h line hline

/-- The form of the result whose hypothesis is about `pieces` and whose shift is
`lineCount a`. -/
theorem tokenStream_append_newline {a : String}
    (h : ∀ piece ∈ pieces a.toList, piece.content ≠ .fault .unterminatedComment) (b : String) :
    tokenStream (a ++ "\n" ++ b) =
      tokenStream a ++ (tokenStream b).map (TokenItem.mapLine (· + lineCount a)) := by
  have htext : (a ++ "\n" ++ b).toList = a.toList ++ '\n' :: b.toList := by
    rw [String.toList_append, String.toList_append, List.append_assoc]
    rfl
  have hbelow := itemsOfPieces_add 1 (lineCount a) (pieces b.toList)
  rw [tokenStream, htext, Lexicon.pieces_append_newline h, itemsOfPieces_append,
    flatMap_text_pieces, tokenStream, tokenStream, ← hbelow, Nat.add_comm 1 (lineCount a)]
  rfl

/-- **A newline is a hard boundary.** If no block comment is left open in `a`, then the token
stream of `a`, a newline and `b` has the items of `a` and then those of `b`, tokens and
lexical errors alike, each of the latter as many lines further down as `a` has. -/
theorem tokenStream_continues_below {a : String}
    (h : ∀ line, .error ⟨.unterminatedComment, line⟩ ∉ tokenStream a) (b : String) :
    tokenStream (a ++ "\n" ++ b) =
      tokenStream a ++
        (tokenStream b).map (TokenItem.mapLine (· + (1 + a.toList.count '\n'))) :=
  tokenStream_append_newline (content_ne_of_tokenStream h) b

/-- The newline keeps the quotes of a literal and the halves of `<>` apart, whose other parts
are errors on the line below. -/
theorem halves_stay_apart :
    (∀ line, .error ⟨.unterminatedComment, line⟩ ∉ tokenStream "x \"<") ∧
      tokenStream ("x \"<" ++ "\n" ++ ">\" 7") =
        [.ok ⟨.identifier "x", "x", 1⟩, .error ⟨.unterminatedString, 1⟩,
          .error ⟨.unexpectedCharacter '<', 1⟩, .error ⟨.unexpectedCharacter '>', 2⟩,
          .error ⟨.unterminatedString, 2⟩, .ok ⟨.number 7, "7", 2⟩] := by
  have ha : tokenStream "x \"<" =
      [.ok ⟨.identifier "x", "x", 1⟩, .error ⟨.unterminatedString, 1⟩,
        .error ⟨.unexpectedCharacter '<', 1⟩] := by cbv
  have hb : tokenStream ">\" 7" =
      [.error ⟨.unexpectedCharacter '>', 1⟩, .error ⟨.unterminatedString, 1⟩,
        .ok ⟨.number 7, "7", 1⟩] := by cbv
  have hclosed : ∀ line, .error ⟨.unterminatedComment, line⟩ ∉ tokenStream "x \"<" := by
    intro line
    rw [ha]
    simp
  refine ⟨hclosed, ?_⟩
  rw [tokenStream_continues_below hclosed, ha, hb]
  rfl

end Scriptlet
