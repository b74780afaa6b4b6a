import Scriptlet.Proofs.Token.Lexeme

/-!
# Maximal munch

The reader of source texts cuts them as the lexical grammar means it: at each position it takes the
longest lexeme, or the stray piece where there is no lexeme.

* `Best` strengthens `Longest` so that the longest lexeme is also the only one of its length; there
  is one lemma of this form for each branch of `Piece.first`.
* `cut_iff_first` says that `Piece.first` gives the one cut there is.
* `munch_iff_tokenStream` is the result for whole source texts.
-/

namespace Scriptlet.Lexicon

/-! ## The longest lexeme -/

/-- The lexeme `piece` is the longest one that `text` starts with, and no `other` one has its
length. -/
structure Best (text : List Char) (piece : Piece) : Prop where
  lexeme : Lexeme piece
  start : piece.text <+: text
  only : ∀ other, Lexeme other → other.text <+: text →
    other = piece ∨ other.text.length < piece.text.length

theorem eq_or_length_lt_of_prefix {α : Type} {l l' : List α} (h : l <+: l') :
    l = l' ∨ l.length < l'.length := by
  rcases Nat.lt_or_ge l.length l'.length with hlt | hge
  · exact .inr hlt
  · exact .inl (h.eq_of_length_le hge)

variable {c : Char} {text rest : List Char}

theorem best_blank (hc : Text.isBlank c = true) (text : List Char) :
    Best (c :: text) ⟨[c], .skipped⟩ := by
  have hopening : opening c = .blank := if_pos hc
  refine ⟨.blank hc, by simp, fun other hlexeme hstart => ?_⟩
  obtain ⟨rest, htext, -⟩ := hlexeme.uncons hstart
  have hcases := hlexeme.opening_cases htext
  rw [hopening] at hcases
  exact .inl hcases

/-- A line comment goes on to the end of its line, so two minus signs are never two symbols. -/
theorem best_lineComment (text : List Char) :
    Best ('-' :: '-' :: text) ⟨'-' :: '-' :: text.takeWhile (· != '\n'), .skipped⟩ := by
  have hline : '\n' ∉ text.takeWhile (· != '\n') := by
    intro hmem
    simpa using List.mem_takeWhile_imp hmem
  have hprefix : text.takeWhile (· != '\n') <+: text := List.takeWhile_prefix _
  refine ⟨.lineComment hline, by simpa using hprefix, fun other hlexeme hstart => ?_⟩
  obtain ⟨rest, htext, -⟩ := hlexeme.uncons hstart
  obtain ⟨comment, hcomment, rfl⟩ | ⟨symbol, hsymbol, rfl⟩ := hlexeme.opening_cases htext
  -- Another comment at this position ends within the line too, so it is no longer than this
  -- one.
  · have hwithin : comment <+: text.takeWhile (· != '\n') := by
      refine prefix_takeWhile (by simpa using hstart) fun d hd => ?_
      rw [bne_iff_ne]
      rintro rfl
      exact hcomment hd
    rcases eq_or_length_lt_of_prefix hwithin with rfl | hlt
    · exact .inl rfl
    · exact .inr (by simpa using hlt)
  · -- The only symbol at this position is a single minus sign.
    have hshort : ∀ symbol ∈ Token.symbols, symbol.1.head? = some '-' → symbol.1.length = 1 := by
      decide
    right
    show symbol.1.length < _
    rw [hshort symbol hsymbol (by rw [show symbol.1 = _ from htext]; rfl)]
    simp

/-- A block comment ends where `Piece.closeComment` finds the first closing mark. -/
theorem best_blockComment {comment : List Char}
    (h : Piece.closeComment text = some (comment, rest)) :
    Best ('{' :: '-' :: text) ⟨'{' :: '-' :: comment, .skipped⟩ := by
  have happend := Piece.closeComment_append h
  refine ⟨.blockComment (commentBody_of_closeComment h), ⟨rest, by simp [happend]⟩,
    fun other hlexeme hstart => ?_⟩
  obtain ⟨comment', rest', rfl, h'⟩ := hlexeme.closeComment_of_start hstart
  rw [h', Option.some.injEq, Prod.mk.injEq] at h
  exact .inl (by rw [h.1])

/-- A string literal ends where `Piece.closeString` finds the first quote that no backslash
takes with it. -/
theorem best_string {body : List Char} (h : Piece.closeString text = some (body, rest)) :
    Best ('"' :: text) (Piece.ofStringBody body) := by
  have happend := Piece.closeString_append h
  refine ⟨.string (stringBody_of_closeString h), ⟨rest, by simp [Piece.ofStringBody, happend]⟩,
    fun other hlexeme hstart => ?_⟩
  obtain ⟨body', rest', rfl, h'⟩ := hlexeme.closeString_of_start hstart
  rw [h', Option.some.injEq, Prod.mk.injEq] at h
  exact .inl (by rw [h.1])

/-- A number has all the digits that follow. -/
theorem best_digits (hc : c.isDigit = true) (text : List Char) :
    Best (c :: text) (Piece.ofDigits (c :: text.takeWhile Char.isDigit)) := by
  have htake : (c :: text).takeWhile Char.isDigit = c :: text.takeWhile Char.isDigit :=
    List.takeWhile_cons_of_pos hc
  rw [← htake]
  refine ⟨lexeme_ofDigits (by simp [htake]) fun d hd => List.mem_takeWhile_imp hd,
    List.takeWhile_prefix _, fun other hlexeme hstart => ?_⟩
  obtain ⟨rest, htext, -⟩ := hlexeme.uncons hstart
  have hcases := hlexeme.opening_cases htext
  rw [opening_of_isDigit hc] at hcases
  obtain ⟨hdigits, hother⟩ := hcases
  rcases eq_or_length_lt_of_prefix (prefix_takeWhile hstart hdigits) with heq | hlt
  · left
    rw [hother, heq]
  · exact .inr hlt

/-- A word has all of `wordTail` behind its first character. -/
theorem best_word (hc : Piece.isWordStart c = true) (text : List Char) :
    Best (c :: text) (Piece.ofWord (c :: wordTail text)) := by
  refine ⟨lexeme_ofWord (word_wordTail hc text),
    List.cons_prefix_cons.mpr ⟨rfl, wordTail_prefix text⟩, fun other hlexeme hstart => ?_⟩
  obtain ⟨word, htext, hword⟩ := hlexeme.uncons hstart
  have hcases := hlexeme.opening_cases htext
  rw [opening_of_isWordStart hc, htext] at hcases
  obtain ⟨hother, rfl⟩ := hcases
  rcases eq_or_length_lt_of_prefix (hother.tail_prefix hword) with rfl | hlt
  · exact .inl rfl
  · exact .inr (Nat.succ_lt_succ hlt)

/-- In the order of `Token.symbols` a longer symbol comes before its beginnings, so the first
one found is the longest. -/
theorem symbols_pairwise :
    Token.symbols.Pairwise fun earlier later => ¬ earlier.1 <+: later.1 := by
  decide

theorem opening_of_find? {symbol : List Char × Token.Kind}
    (hmem : symbol ∈ Token.symbols) (hstart : symbol.1 <+: c :: text) : opening c = .mark := by
  have hmark := opening_of_symbol symbol hmem
  rcases hspelling : symbol.1 with _ | ⟨d, spelling⟩
  · simp [hspelling] at hmark
  · rw [hspelling, List.cons_prefix_cons] at hstart
    obtain ⟨rfl, -⟩ := hstart
    simpa [hspelling] using hmark

/-- The symbol that `find?` gives is the longest one: two minus signs aside, which open a
comment. -/
theorem best_symbol {symbol : List Char × Token.Kind}
    (hfind : Token.symbols.find? (fun symbol => symbol.1.isPrefixOf (c :: text)) = some symbol)
    (hcomment : ¬ (c = '-' ∧ text.head? = some '-')) :
    Best (c :: text) ⟨symbol.1, .token symbol.2⟩ := by
  have hmem := List.mem_of_find?_eq_some hfind
  obtain ⟨hfound, before, after, hsplit, hbefore⟩ := List.find?_eq_some_iff_append.mp hfind
  have hsymbol := List.isPrefixOf_iff_prefix.mp hfound
  refine ⟨.symbol hmem, hsymbol, fun other hlexeme hstart => ?_⟩
  obtain ⟨rest, htext, -⟩ := hlexeme.uncons hstart
  have hcases := hlexeme.opening_cases htext
  rw [opening_of_find? hmem hsymbol] at hcases
  obtain ⟨comment, -, rfl⟩ | ⟨symbol', hmem', rfl⟩ := hcases
  · refine absurd ?_ hcomment
    obtain ⟨rest', hrest⟩ := hstart
    obtain ⟨rfl, rfl⟩ := List.cons.inj hrest
    exact ⟨rfl, rfl⟩
  -- A symbol of the list was refused, is the one that was found, or comes after it.
  rw [hsplit, List.mem_append, List.mem_cons] at hmem'
  rcases hmem' with hearlier | rfl | hlater
  · have hrefused := hbefore symbol' hearlier
    rw [List.isPrefixOf_iff_prefix.mpr hstart] at hrefused
    simp at hrefused
  · exact .inl rfl
  · -- What was found is no beginning of a later symbol, so the later symbol is the shorter one.
    have hpairwise := symbols_pairwise
    rw [hsplit, List.pairwise_append, List.pairwise_cons] at hpairwise
    have hnot : ¬ symbol.1 <+: symbol'.1 := hpairwise.2.1.1 symbol' hlater
    have hshorter : symbol'.1 <+: symbol.1 :=
      (List.prefix_or_prefix_of_prefix hsymbol hstart).resolve_left hnot
    rcases eq_or_length_lt_of_prefix hshorter with heq | hlt
    · exact absurd (heq ▸ List.prefix_rfl) hnot
    · exact .inr hlt

/-! ## The cut -/

namespace Best

variable {piece : Piece}

theorem longest (h : Best text piece) : Longest text piece := by
  refine ⟨h.lexeme, h.start, fun other hlexeme hstart => ?_⟩
  rcases h.only other hlexeme hstart with rfl | hlt
  · exact Nat.le_refl _
  · exact Nat.le_of_lt hlt

/-- Where some `piece` is `Best`, there is one `Cut`, and it is this piece. -/
theorem cut_iff (h : Best text piece) (other : Piece) : Cut text other ↔ other = piece := by
  refine ⟨fun hcut => ?_, fun heq => heq ▸ .longest h.longest⟩
  rcases hcut with hlongest | ⟨hnone, -⟩
  · have hge := hlongest.longest piece h.lexeme h.start
    rcases h.only other hlongest.lexeme hlongest.start with heq | hlt
    · exact heq
    · omega
  · exact absurd h.start (hnone piece h.lexeme)

end Best

/-- Where no lexeme starts, there is one `Cut`, and it is the `Stray` piece. -/
theorem Stray.cut_iff {piece : Piece} (h : Stray text piece)
    (hnone : ∀ other, Lexeme other → ¬ other.text <+: text) (other : Piece) :
    Cut text other ↔ other = piece := by
  refine ⟨fun hcut => ?_, fun heq => heq ▸ .stray hnone h⟩
  rcases hcut with hlongest | ⟨-, hother⟩
  · exact absurd hlongest.start (hnone other hlongest.lexeme)
  -- The three forms of stray pieces exclude one another by what the text starts with.
  · rcases h with _ | _ | ⟨hcomment, hquote⟩ <;> rcases hother with _ | _ | ⟨hcomment', hquote'⟩
    · rfl
    · exact absurd (List.prefix_append _ _) hcomment'
    · rfl
    · exact absurd rfl hquote'
    · exact absurd (List.prefix_append _ _) hcomment
    · exact absurd rfl hquote
    · rfl

/-- No lexeme starts at a block comment that is not closed. -/
theorem not_lexeme_of_closeComment (h : Piece.closeComment text = none) (piece : Piece)
    (hlexeme : Lexeme piece) : ¬ piece.text <+: '{' :: '-' :: text := by
  intro hstart
  obtain ⟨comment, rest, -, hfound⟩ := hlexeme.closeComment_of_start hstart
  simp [h] at hfound

/-- No lexeme starts at a string literal that is not closed. -/
theorem not_lexeme_of_closeString (h : Piece.closeString text = none) (piece : Piece)
    (hlexeme : Lexeme piece) : ¬ piece.text <+: '"' :: text := by
  intro hstart
  obtain ⟨body, rest, -, hfound⟩ := hlexeme.closeString_of_start hstart
  simp [h] at hfound

/-- The last branch of `Piece.first`: where all its tests fail, no lexeme starts. -/
theorem not_lexeme_of_find? (hblank : ¬ Text.isBlank c = true)
    (hline : ¬ (c = '-' ∧ text.head? = some '-')) (hblock : ¬ (c = '{' ∧ text.head? = some '-'))
    (hquote : ¬ c = '"') (hdigit : ¬ c.isDigit = true) (hword : ¬ Piece.isWordStart c = true)
    (hfind : Token.symbols.find? (fun symbol => symbol.1.isPrefixOf (c :: text)) = none)
    (piece : Piece) (hlexeme : Lexeme piece) : ¬ piece.text <+: c :: text := by
  intro hstart
  obtain ⟨rest, htext, hrest⟩ := hlexeme.uncons hstart
  have hcases := hlexeme.opening_cases htext
  -- What is left are braces, which open block comments only, and marks.
  have hopening : opening c = if c = '{' then .brace else .mark := by
    unfold opening
    rw [if_neg hblank, if_neg hquote, if_neg hdigit, if_neg hword]
  rw [hopening] at hcases
  by_cases hbrace : c = '{'
  · rw [if_pos hbrace] at hcases
    obtain ⟨comment, -, rfl⟩ := hcases
    obtain ⟨-, rfl⟩ := List.cons.inj htext
    obtain ⟨text', rfl⟩ := hrest
    exact hblock ⟨hbrace, rfl⟩
  · rw [if_neg hbrace] at hcases
    obtain ⟨comment, -, rfl⟩ | ⟨symbol, hmem, rfl⟩ := hcases
    · obtain ⟨rfl, rfl⟩ := List.cons.inj htext
      obtain ⟨text', rfl⟩ := hrest
      exact hline ⟨rfl, rfl⟩
    · have hrefused := List.find?_eq_none.mp hfind symbol hmem
      exact hrefused (List.isPrefixOf_iff_prefix.mpr hstart)

/-- By the branches of `Piece.first`: the piece that it gives is the one `Cut` that there is. -/
theorem cut_iff_first (c : Char) (text : List Char) (piece : Piece) :
    Cut (c :: text) piece ↔ piece = (Piece.first c text).1 := by
  -- The cases are the branches of the reader, each with the lemma on the lexemes it looks for.
  unfold Piece.first
  split
  · rename_i hblank
    exact (best_blank hblank text).cut_iff piece
  rename_i hblank
  split
  · rename_i hcomment
    obtain ⟨rfl, hhead⟩ := hcomment
    obtain ⟨text, rfl⟩ := List.head?_eq_some_iff.mp hhead
    exact (best_lineComment text).cut_iff piece
  rename_i hline
  split
  · rename_i hcomment
    obtain ⟨rfl, hhead⟩ := hcomment
    obtain ⟨text, rfl⟩ := List.head?_eq_some_iff.mp hhead
    rw [List.tail_cons]
    rcases hclose : Piece.closeComment text with _ | ⟨comment, rest⟩
    · exact Stray.comment.cut_iff (not_lexeme_of_closeComment hclose) piece
    · exact (best_blockComment hclose).cut_iff piece
  rename_i hblock
  split
  · rename_i hquote
    subst hquote
    rcases hclose : Piece.closeString text with _ | ⟨body, rest⟩
    · exact Stray.quote.cut_iff (not_lexeme_of_closeString hclose) piece
    · exact (best_string hclose).cut_iff piece
  rename_i hquote
  split
  · rename_i hdigit
    exact (best_digits hdigit text).cut_iff piece
  rename_i hdigit
  split
  · rename_i hword
    exact (best_word hword text).cut_iff piece
  rename_i hword
  unfold Piece.symbol?
  rcases hfind : Token.symbols.find? fun symbol => symbol.1.isPrefixOf (c :: text) with _ | symbol
  · rw [hfind]
    have hcomment : ¬ ['{', '-'] <+: c :: text := by
      rintro ⟨rest, hrest⟩
      obtain ⟨rfl, rfl⟩ := List.cons.inj hrest
      exact hblock ⟨rfl, rfl⟩
    exact (Stray.character hcomment hquote).cut_iff
      (not_lexeme_of_find? hblank hline hblock hquote hdigit hword hfind) piece
  · rw [hfind]
    exact (best_symbol hfind hline).cut_iff piece

/-! ## Whole texts -/

theorem Cut.text_ne_nil {piece : Piece} (h : Cut text piece) : piece.text ≠ [] := by
  rcases h with hlongest | ⟨-, hstray⟩
  · exact hlongest.lexeme.text_ne_nil
  · rcases hstray with _ | _ | _ <;> simp

theorem pieces_of_cut {piece : Piece} (h : Cut (piece.text ++ rest) piece) :
    pieces (piece.text ++ rest) = piece :: pieces rest := by
  rcases htext : piece.text ++ rest with _ | ⟨c, text⟩
  · exact absurd (List.append_eq_nil_iff.mp htext).1 h.text_ne_nil
  · rw [htext, cut_iff_first] at h
    have happend := Piece.first_text_append c text
    rw [← h, ← htext, List.append_cancel_left_eq] at happend
    rw [pieces, ← h, happend]

/-- Each of the `pieces` of a text is `Cut` from a suffix of it. -/
theorem exists_cut_of_mem_pieces {text : List Char} {piece : Piece}
    (h : piece ∈ pieces text) : ∃ rest, rest <:+ text ∧ Cut rest piece := by
  fun_induction pieces text with
  | case1 => cases h
  | case2 c text ih =>
    rcases List.mem_cons.mp h with rfl | h
    · exact ⟨_, List.suffix_refl _, (cut_iff_first c text _).mpr rfl⟩
    · obtain ⟨rest, hrest, hcut⟩ := ih h
      exact ⟨rest, hrest.trans ⟨_, Piece.first_text_append c text⟩, hcut⟩

/-- The items of a cut text are those of `piece` and those of `rest`, which starts on the line
that the piece ends on. -/
theorem itemsOfPieces_of_cut (piece : Piece) (h : Cut (piece.text ++ rest) piece)
    (before : List Char) :
    itemsOfPieces (1 + before.count '\n') (pieces (piece.text ++ rest)) =
      (piece.item? (1 + before.count '\n')).toList ++
        itemsOfPieces (1 + (before ++ piece.text).count '\n') (pieces rest) := by
  rw [pieces_of_cut h, itemsOfPieces, Piece.newlines, List.count_append, Nat.add_assoc]

/-- The step of `Munch`, for pieces that contribute an item and for those that contribute
none. -/
theorem Munch.cons {before : List Char} {piece : Piece} {ps : List Piece} {items : List TokenItem}
    (hcut : Cut (piece.text ++ rest) piece) (hrest : Munch (before ++ piece.text) rest ps items) :
    Munch before (piece.text ++ rest) (piece :: ps)
      ((piece.item? (1 + before.count '\n')).toList ++ items) := by
  obtain ⟨piece, _ | kind | cause⟩ := piece
  · exact .skipped hcut hrest
  · exact .token hcut hrest
  · exact .fault hcut hrest

/-- By the recursion of `pieces`: the reader's pieces and items are a `Munch` of the text. -/
theorem munch_pieces (before text : List Char) :
    Munch before text (pieces text) (itemsOfPieces (1 + before.count '\n') (pieces text)) := by
  fun_induction pieces text generalizing before with
  | case1 => exact .done
  | case2 c text ih =>
    -- What the reader takes first is a cut, and the line moves on with the text before it.
    have happend := Piece.first_text_append c text
    have hcut : Cut (c :: text) (Piece.first c text).1 := (cut_iff_first c text _).mpr rfl
    rw [← happend] at hcut
    have hmunch := Munch.cons hcut (ih (before ++ (Piece.first c text).1.text))
    rwa [← itemsOfPieces_of_cut _ hcut, happend, pieces] at hmunch

/-- By induction on `Munch`: any pieces and items that are one are the reader's. -/
theorem Munch.eq_pieces {before text : List Char} {ps : List Piece} {items : List TokenItem}
    (h : Munch before text ps items) :
    ps = pieces text ∧ items = itemsOfPieces (1 + before.count '\n') (pieces text) := by
  -- Each step of the cut takes the piece that the reader takes, whatever it contributes.
  induction h with
  | done => exact ⟨by rw [pieces], by rw [pieces, itemsOfPieces]⟩
  | skipped hcut _ ih =>
    obtain ⟨rfl, rfl⟩ := ih
    exact ⟨(pieces_of_cut hcut).symm, (itemsOfPieces_of_cut ⟨_, .skipped⟩ hcut _).symm⟩
  | token hcut _ ih =>
    obtain ⟨rfl, rfl⟩ := ih
    exact ⟨(pieces_of_cut hcut).symm, (itemsOfPieces_of_cut ⟨_, .token _⟩ hcut _).symm⟩
  | fault hcut _ ih =>
    obtain ⟨rfl, rfl⟩ := ih
    exact ⟨(pieces_of_cut hcut).symm, (itemsOfPieces_of_cut ⟨_, .fault _⟩ hcut _).symm⟩

/-- **The token stream of a source text is its maximal-munch reading.** For every `source`
there is one `Munch`, and only one: `ps` is cut from left to right into pieces that are each
the longest lexeme at their position, or the stray piece where there is no lexeme, and `items`
are what these pieces contribute, in order, on their lines. They are the `pieces` and the
`tokenStream` of the source. -/
theorem munch_iff_tokenStream (source : String) (ps : List Piece) (items : List TokenItem) :
    Munch [] source.toList ps items ↔ ps = pieces source.toList ∧ items = tokenStream source := by
  constructor
  · intro h
    exact h.eq_pieces
  · rintro ⟨rfl, rfl⟩
    exact munch_pieces [] source.toList

/-- A literal that is not closed gives away its quote only, an unclosed comment all of the
text. The minus sign that opens a comment does not also close it. -/
example : tokenStream "a /\\ \"b \x7b-\x7d\n;" =
    [.ok ⟨.identifier "a", "a", 1⟩, .ok ⟨.greater, "/\\", 1⟩, .error ⟨.unterminatedString, 1⟩,
      .ok ⟨.identifier "b", "b", 1⟩, .error ⟨.unterminatedComment, 1⟩] := by
  cbv

end Scriptlet.Lexicon
