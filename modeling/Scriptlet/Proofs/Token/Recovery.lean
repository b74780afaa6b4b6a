import Mathlib
import Scriptlet.Proofs.Token.Spacing

/-!
# Recovery from lexical errors

A lexical error costs exactly the piece that it names. When the offending pieces of a source text
are blanked, what is left has no lexical errors, and the tokens that were read around the errors
stand where they stood.

* `Piece.blanked` is the text of a piece with every character of a fault blanked.
* `faultsBlanked` is a source text with all its faults blanked, and nothing else touched.
* `goesOn_of_goesOn_blank`: where a blank goes on with a piece, every other character of the line
  would have gone on with it as well. So a piece in front of a fault ends where it did.
* `map_cause_errorsOf_itemsOfPieces` says that the lexical errors are the faults, and `FaultText`
  which piece each of them stands for.
* `lex_faultsBlanked` is the result.
-/

namespace Scriptlet

/-- A space in place of any character but a newline. -/
def Text.blanked (c : Char) : Char :=
  if c = '\n' then '\n' else ' '

/-- The text of a piece, with every character `Text.blanked` if the piece is a fault. -/
def Piece.blanked (piece : Piece) : List Char :=
  match piece.content with
  | .fault _ => piece.text.map Text.blanked
  | _ => piece.text

/-- The cause that `.fault` carries, if the piece is one. -/
def Piece.fault? (piece : Piece) : Option LexicalError.Cause :=
  match piece.content with
  | .fault cause => some cause
  | _ => none

/-- The text with its faults blanked, piece by piece. -/
def blankFaults (text : List Char) : List Char :=
  (pieces text).flatMap Piece.blanked

/-- The same for a whole source text: see `blankFaults`. -/
def faultsBlanked (source : String) : String :=
  String.ofList (blankFaults source.toList)

namespace Lexicon

variable {c d : Char} {text rest : List Char}

/-! ## Blanked texts -/

theorem isBlank_blanked (c : Char) : Text.isBlank (Text.blanked c) = true := by
  unfold Text.blanked
  split <;> decide

/-- Blanks in a row are `Trivia`. -/
theorem trivia_map_blanked (text : List Char) : Trivia (text.map Text.blanked) := by
  induction text with
  | nil => exact .nil
  | cons c text ih => exact .blank (isBlank_blanked c) ih

theorem count_newline_map_blanked (text : List Char) :
    (text.map Text.blanked).count '\n' = text.count '\n' := by
  induction text with
  | nil => rfl
  | cons c text ih =>
    rw [List.map_cons, List.count_cons, List.count_cons, ih]
    by_cases hc : c = '\n' <;> simp [Text.blanked, hc]

/-- The first character of a text with its faults blanked is the one `c` that it had, or a
blank that stands in the place of a `c` that is none. -/
theorem head?_blankFaults (c : Char) (text : List Char) :
    ∃ d, (blankFaults (c :: text)).head? = some d ∧
      (d = c ∨ Text.isBlank d = true ∧ ¬ Text.isBlank c = true) := by
  -- The first piece begins with `c`; if it is a fault, `c` is blanked with it.
  obtain ⟨tail, htext⟩ : ∃ tail, (Piece.first c text).1.text = c :: tail := by
    have happend := Piece.first_text_append c text
    obtain ⟨e, tail, htext⟩ := List.exists_cons_of_ne_nil (Piece.first_text_ne_nil c text)
    rw [htext] at happend
    exact ⟨tail, by rw [htext, (List.cons.inj happend).1]⟩
  unfold blankFaults
  rw [pieces, List.flatMap_cons]
  unfold Piece.blanked
  rw [htext]
  split
  · refine ⟨Text.blanked c, rfl, ?_⟩
    by_cases hc : Text.isBlank c = true
    · -- A blank is skipped, so it is no fault.
      rename_i cause hcause
      rw [Piece.first, if_pos hc] at hcause
      cases hcause
    · exact .inr ⟨isBlank_blanked c, hc⟩
  · exact ⟨c, rfl, .inl rfl⟩

/-! ## Pieces in front of a fault -/

/-- A lexeme that goes on with a blank is a line comment, so it goes on with every `d` but a
newline. -/
theorem goesOn_of_goesOn_blank (hne : text ≠ []) (hblank : Text.isBlank c = true)
    (h : GoesOn text c) (hd : d ≠ '\n') : GoesOn text d := by
  obtain ⟨content, hlonger⟩ := h
  obtain ⟨comment, hcomment, heq⟩ := hlonger.lineComment_of_isBlank hne hblank
  rcases text with _ | ⟨first, _ | ⟨second, text⟩⟩
  · exact absurd rfl hne
  · -- A blank is no minus sign.
    obtain rfl : c = '-' := (List.cons.inj (List.cons.inj heq).2).1
    exact absurd hblank (by decide)
  · obtain ⟨rfl, htail⟩ := List.cons.inj heq
    obtain ⟨rfl, hrest⟩ := List.cons.inj htail
    obtain rfl : text ++ [c] = comment := hrest
    have hline : '\n' ∉ text ++ [d] := by
      simp only [List.mem_append, List.mem_singleton, not_or] at hcomment ⊢
      exact ⟨hcomment.1, hd.symm⟩
    exact ⟨.skipped, .lineComment hline⟩

/-- If `piece` ended in front of `rest`, it ends in front of `rest` with its faults blanked:
where a blank goes on with it, the character that was there would have gone on with it too. -/
theorem not_goesOn_blankFaults {piece : List Char} (hne : piece ≠ [])
    (hends : ∀ c ∈ rest.head?, ¬ GoesOn piece c) :
    ∀ c ∈ (blankFaults rest).head?, ¬ GoesOn piece c := by
  rintro c hc hgoes
  rcases rest with _ | ⟨d, rest⟩
  · rw [blankFaults, pieces] at hc
    cases hc
  · have hd : ¬ GoesOn piece d := hends d rfl
    obtain ⟨e, hhead, hcases⟩ := head?_blankFaults d rest
    obtain rfl : e = c := Option.some.inj (hhead.symm.trans hc)
    -- A blank goes on with a line comment only, and so would what was blanked.
    rcases hcases with rfl | ⟨hblank, hother⟩
    · exact hd hgoes
    · refine hd (goesOn_of_goesOn_blank hne hblank hgoes ?_)
      rintro rfl
      exact hother Text.isBlank_newline

/-! ## Reading on -/

theorem blankFaults_cons (c : Char) (text : List Char) :
    blankFaults (c :: text) =
      (Piece.first c text).1.blanked ++ blankFaults (Piece.first c text).2 := by
  rw [blankFaults, pieces, List.flatMap_cons, ← blankFaults]

/-- By the recursion of `pieces`: the stream of `blankFaults text` has the tokens of the
stream of `text`, and no errors. -/
theorem itemsOfPieces_blankFaults (text : List Char) (line : Nat) :
    itemsOfPieces line (pieces (blankFaults text)) =
      (tokensOf (itemsOfPieces line (pieces text))).map .ok := by
  fun_induction pieces text generalizing line with
  | case1 =>
    rw [blankFaults, pieces, List.flatMap_nil, pieces]
    rfl
  | case2 c text ih =>
    have hne := Piece.first_text_ne_nil c text
    have happend := Piece.first_text_append c text
    have hlongest (h : ∀ cause, (Piece.first c text).1.content ≠ .fault cause) :=
      longest_append_iff.mp (happend ▸ longest_first h)
    rw [blankFaults_cons, itemsOfPieces]
    -- A fault leaves its newlines; every other piece is read as before.
    rcases hpiece : (Piece.first c text).1 with ⟨piece, _ | kind | cause⟩ <;>
      rw [hpiece] at hne hlongest
    · obtain ⟨hlexeme, hends⟩ := hlongest fun _ h => by cases h
      exact (itemsOfPieces_gap hlexeme (not_goesOn_blankFaults hne hends) line).trans (ih _)
    · obtain ⟨hlexeme, hends⟩ := hlongest fun _ h => by cases h
      rw [show Piece.blanked ⟨piece, .token kind⟩ = piece from rfl,
        itemsOfPieces_token hlexeme (not_goesOn_blankFaults hne hends)]
      exact congrArg (_ :: ·) (ih _)
    · rw [show Piece.blanked ⟨piece, .fault cause⟩ = piece.map Text.blanked from rfl,
        itemsOfPieces_trivia (trivia_map_blanked piece), count_newline_map_blanked]
      exact ih _

/-! ## Faults and their pieces -/

/-- The causes of the errors are those of `Piece.fault?`, in the order of the pieces. -/
theorem map_cause_errorsOf_itemsOfPieces (line : Nat) (ps : List Piece) :
    (errorsOf (itemsOfPieces line ps)).map LexicalError.cause = ps.filterMap Piece.fault? := by
  induction ps generalizing line with
  | nil => rfl
  | cons piece ps ih =>
    obtain ⟨text, _ | kind | cause⟩ := piece
    · exact ih _
    · exact ih _
    · exact congrArg (cause :: ·) (ih _)

/-- What text a fault of a source has, by its cause: the character `found` that starts no
token, the quote of a literal that is not closed, the `digits` of a number out of range, and
everything from the opening mark of a comment that is not closed to the end. -/
def FaultText (source : List Char) (piece : Piece) : LexicalError.Cause → Prop
  | .unexpectedCharacter found => piece.text = [found]
  | .unterminatedString => piece.text = ['"']
  | .numberOutOfRange digits => piece.text = digits.toList ∧ ∀ d ∈ digits.toList, Digit d
  | .unterminatedComment => ['{', '-'] <+: piece.text ∧ piece.text <:+ source

theorem faultText_of_cut {piece : Piece} {cause : LexicalError.Cause} (h : Cut text piece)
    (hcause : piece.content = .fault cause) : FaultText text piece cause := by
  rcases h with ⟨hlexeme, -, -⟩ | ⟨-, hstray⟩
  · -- The only lexeme that is a fault is a number out of range.
    rcases hlexeme with _ | _ | _ | _ | _ | ⟨-, hdigits, -⟩ | _ | _ | _ <;> cases hcause
    exact ⟨String.toList_ofList.symm, by rwa [String.toList_ofList]⟩
  · rcases hstray with _ | _ | _ <;> cases hcause
    · exact ⟨List.prefix_append _ _, List.suffix_refl _⟩
    · rfl
    · rfl

/-- The `FaultText` of a piece that is cut from a suffix of the source is also its text in the
source. -/
theorem faultText_of_mem_pieces {piece : Piece} {cause : LexicalError.Cause}
    (h : piece ∈ pieces text) (hcause : piece.content = .fault cause) :
    FaultText text piece cause := by
  fun_induction pieces text with
  | case1 => cases h
  | case2 c text ih =>
    rcases List.mem_cons.mp h with rfl | h
    · exact faultText_of_cut ((cut_iff_first c text _).mpr rfl) hcause
    · -- What is left to the end of the rest is left to the end of the text.
      have hrest : (Piece.first c text).2 <:+ c :: text := ⟨_, Piece.first_text_append c text⟩
      have hfault := ih h
      rcases cause with found | _ | _ | digits
      case unterminatedComment => exact ⟨hfault.1, hfault.2.trans hrest⟩
      all_goals exact hfault

/-- **Recovery skips exactly the offending text.** The source with `faultsBlanked` has no
lexical error, and its tokens are those of `source`, in order, with their kinds, lexemes and
lines. The errors of `source` are its faults, in order, and each fault has the text that
`FaultText` names and nothing else. -/
theorem lex_faultsBlanked (source : String) :
    lex (faultsBlanked source) = ((lex source).1, []) ∧
      (lex source).2.map LexicalError.cause = (pieces source.toList).filterMap Piece.fault? ∧
      ∀ piece ∈ pieces source.toList, ∀ cause, piece.content = .fault cause →
        FaultText source.toList piece cause := by
  refine ⟨?_, map_cause_errorsOf_itemsOfPieces 1 _, fun piece hpiece cause =>
    faultText_of_mem_pieces hpiece⟩
  rw [lex_eq_iff, tokenStream, faultsBlanked, String.toList_ofList]
  exact itemsOfPieces_blankFaults source.toList 1

/-- The comment that is left open here takes everything up to the end with it, and only the
name in front of it is left. -/
theorem openComment_leaves_name :
    ⟨"\x7b- y\nz".toList, .fault .unterminatedComment⟩ ∈ pieces "x \x7b- y\nz".toList ∧
      FaultText "x \x7b- y\nz".toList ⟨"\x7b- y\nz".toList, .fault .unterminatedComment⟩
        .unterminatedComment ∧
      lex (faultsBlanked "x \x7b- y\nz") = ([⟨.identifier "x", "x", 1⟩], []) := by
  obtain ⟨hblanked, -, hfaults⟩ := lex_faultsBlanked "x \x7b- y\nz"
  have hpieces : pieces "x \x7b- y\nz".toList =
      [⟨['x'], .token (.identifier "x")⟩, ⟨[' '], .skipped⟩,
        ⟨"\x7b- y\nz".toList, .fault .unterminatedComment⟩] := by cbv
  have hmem : ⟨"\x7b- y\nz".toList, .fault .unterminatedComment⟩ ∈
      pieces "x \x7b- y\nz".toList := by
    rw [hpieces]
    decide
  have hlex : lex "x \x7b- y\nz" = ([⟨.identifier "x", "x", 1⟩], [⟨.unterminatedComment, 1⟩]) := by
    cbv
  rw [hlex] at hblanked
  exact ⟨hmem, hfaults _ hmem _ rfl, hblanked⟩

/-- Both quotes of a literal that an escape leaves open are faults, and so is the backslash
between them, which no slash follows. The minus sign in front of a fault does not become a
comment. -/
example : faultsBlanked "-$ \"a\\\"b 9223372036854775808\n< \x7b- c\n" =
    "-   a  b                    \n      \n" := by
  cbv

end Lexicon

end Scriptlet
