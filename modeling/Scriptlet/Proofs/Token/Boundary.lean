import Scriptlet.Proofs.Token.MaximalMunch

/-!
# Boundaries of pieces

A piece ends where it does because of the one character behind it. So a text can be cut between any
two pieces, and put together again wherever the second part starts with a character that does not go
on with the first.

* `GoesOn text c` says that a text and the character behind it are one lexeme.
* `longest_append_iff`: a lexeme is the longest one exactly when it does not go on.
* `not_goesOn_newline` and `not_goesOn_of_token`: a newline ends every piece, and a blank every
  token.
* `longest_first`: a text without lexical errors starts with its longest lexeme.
-/

namespace Scriptlet.Lexicon

variable {c : Char} {text rest : List Char} {piece other : Piece}

/-- The characters `text` and `c` behind them are a `Lexeme` of some content. -/
def GoesOn (text : List Char) (c : Char) : Prop :=
  ∃ content, Lexeme ⟨text ++ [c], content⟩

/-! ## One character decides -/

/-- If `word` and `word ++ [c] ++ more` are words, so is `word ++ [c]`: it takes word
characters one by one, and a mark ends it. -/
theorem Word.goesOn {word more : List Char} {first : Char} (h : Word (first :: word))
    (hother : Word (first :: (word ++ [c] ++ more))) : Word (first :: (word ++ [c])) := by
  have hstart : WordStart first := by rcases h with ⟨hstart, -⟩ | ⟨hstart, -, -⟩ <;> exact hstart
  generalize hwhole : first :: (word ++ [c] ++ more) = whole at hother
  rcases hother with ⟨_, hword⟩ | @⟨_, body, mark, _, hbody, hmark⟩
  · obtain ⟨rfl, rfl⟩ := List.cons.inj hwhole
    exact .plain hstart fun d hd => hword d (List.mem_append_left more hd)
  · obtain ⟨rfl, hbody'⟩ := List.cons.inj hwhole
    -- The character is the mark at the end of the other word, or it stands before the mark.
    rcases List.eq_nil_or_concat more with rfl | ⟨more, last, rfl⟩
    · rw [List.append_nil] at hbody'
      obtain ⟨rfl, heq⟩ := List.append_inj' hbody' rfl
      obtain rfl : c = mark := List.singleton_inj.mp heq
      exact .marked hstart hbody hmark
    · rw [List.concat_eq_append, ← List.append_assoc] at hbody'
      obtain ⟨rfl, -⟩ := List.append_inj' hbody' rfl
      exact .plain hstart fun d hd => hbody d (List.mem_append_left more hd)

theorem length_symbol_le : ∀ symbol ∈ Token.symbols, symbol.1.length ≤ 2 := by
  decide

theorem symbol_eq_minus : ∀ symbol ∈ Token.symbols, symbol.1.head? = some '-' →
    symbol.1 = ['-'] := by
  decide

/-- The case of `Lexeme.goesOn_of_prefix` in which both lexemes are line comments or symbols. -/
theorem goesOn_of_mark (h : (∃ comment, '\n' ∉ comment ∧
      piece = ⟨'-' :: '-' :: comment, .skipped⟩) ∨
      ∃ symbol ∈ Token.symbols, piece = ⟨symbol.1, .token symbol.2⟩)
    (hother : (∃ comment, '\n' ∉ comment ∧ other = ⟨'-' :: '-' :: comment, .skipped⟩) ∨
      ∃ symbol ∈ Token.symbols, other = ⟨symbol.1, .token symbol.2⟩)
    (hne : piece.text ≠ []) {more : List Char} (hmore : piece.text ++ [c] ++ more = other.text) :
    GoesOn piece.text c := by
  rcases h with ⟨comment, -, rfl⟩ | ⟨symbol, hsymbol, rfl⟩ <;>
    rcases hother with ⟨comment', hcomment', rfl⟩ | ⟨symbol', hsymbol', rfl⟩
  · have heq : comment ++ [c] ++ more = comment' := by simpa using hmore
    have hline : '\n' ∉ comment ++ [c] := by
      rw [← heq] at hcomment'
      exact fun hmem => hcomment' (List.mem_append_left more hmem)
    exact ⟨_, .lineComment hline⟩
  · -- No symbol is so long.
    have hlength := length_symbol_le symbol' hsymbol'
    rw [show symbol'.1 = _ from hmore.symm] at hlength
    simp at hlength
  · obtain ⟨first, tail, htext⟩ := List.exists_cons_of_ne_nil hne
    replace htext : symbol.1 = first :: tail := htext
    replace hmore : symbol.1 ++ [c] ++ more = '-' :: '-' :: comment' := hmore
    have hfirst : first = '-' := by
      rw [htext] at hmore
      exact (List.cons.inj hmore).1
    have hminus := symbol_eq_minus symbol hsymbol (by rw [htext, hfirst]; rfl)
    rw [hminus] at hmore
    -- So the symbol is a minus sign, and a second one makes a comment of it.
    obtain rfl : c = '-' := (List.cons.inj (List.cons.inj hmore).2).1
    show GoesOn symbol.1 '-'
    rw [hminus]
    exact ⟨_, .lineComment List.not_mem_nil⟩
  · replace hmore : symbol.1 ++ [c] ++ more = symbol'.1 := hmore
    -- The longer symbol has two characters, so the character behind the shorter one completes it.
    have hlength := length_symbol_le symbol' hsymbol'
    have hpos : 0 < symbol.1.length := List.length_pos_iff.mpr hne
    rw [← hmore, List.length_append, List.length_append, List.length_singleton] at hlength
    obtain rfl : more = [] := List.eq_nil_of_length_eq_zero (by omega)
    rw [List.append_nil] at hmore
    refine ⟨.token symbol'.2, ?_⟩
    show Lexeme ⟨symbol.1 ++ [c], .token symbol'.2⟩
    rw [hmore]
    exact .symbol hsymbol'

/-- If the lexeme `piece` and the character `c` are the beginning of a lexeme `other`, then
`piece` already `GoesOn` with `c`: lexemes grow character by character. -/
theorem Lexeme.goesOn_of_prefix (h : Lexeme piece) (hother : Lexeme other)
    (hbegins : piece.text ++ [c] <+: other.text) : GoesOn piece.text c := by
  obtain ⟨first, tail, htext⟩ := List.exists_cons_of_ne_nil h.text_ne_nil
  obtain ⟨more, hmore⟩ := hbegins
  have htext' : other.text = first :: (tail ++ [c] ++ more) := by
    rw [← hmore, htext, List.cons_append, List.cons_append]
  have hcases := h.opening_cases htext
  have hcases' := hother.opening_cases htext'
  -- Both lexemes start with one character, so they are of one sort.
  rcases hopening : opening first <;> rw [hopening] at hcases hcases'
  case blank =>
    rw [hcases'] at htext'
    simp at htext'
  case quote =>
    -- The first closing quote ends both literals.
    obtain ⟨body, hbody, rfl⟩ := hcases
    obtain ⟨body', hbody', rfl⟩ := hcases'
    have heq : body ++ '"' :: c :: more = body' ++ '"' :: [] := by
      simpa [Piece.ofStringBody] using hmore
    have hfound := hbody.closeString_append (c :: more)
    rw [heq, hbody'.closeString_append] at hfound
    simp at hfound
  case brace =>
    -- The first closing mark ends both comments.
    obtain ⟨comment, hcomment, rfl⟩ := hcases
    obtain ⟨comment', hcomment', rfl⟩ := hcases'
    have heq : comment ++ c :: more = comment' ++ [] := by simpa using hmore
    have hfound := hcomment.closeComment_append (c :: more)
    rw [heq, hcomment'.closeComment_append] at hfound
    simp at hfound
  case digit =>
    have hdigits : ∀ d ∈ piece.text ++ [c], d.isDigit = true := by
      rw [← hmore] at hcases'
      exact fun d hd => hcases'.1 d (List.mem_append_left more hd)
    exact ⟨_, lexeme_ofDigits (by simp) hdigits⟩
  case letter =>
    have hword : Word (first :: tail) := htext ▸ hcases.1
    have hword' : Word (first :: (tail ++ [c] ++ more)) := htext' ▸ hcases'.1
    rw [htext]
    exact ⟨_, lexeme_ofWord (hword.goesOn hword')⟩
  case mark => exact goesOn_of_mark hcases hcases' h.text_ne_nil hmore

/-- Since lexemes grow character by character, `piece` is the `Longest` one in front of `rest`
exactly if it does not go on with the first character of `rest`. -/
theorem longest_append_iff :
    Longest (piece.text ++ rest) piece ↔
      Lexeme piece ∧ ∀ c ∈ rest.head?, ¬ GoesOn piece.text c := by
  refine ⟨fun h => ⟨h.lexeme, ?_⟩, fun ⟨hlexeme, hends⟩ => ⟨hlexeme, List.prefix_append _ _, ?_⟩⟩
  -- If the piece went on, there would be a lexeme with one character more.
  · rintro c hc ⟨content, hlonger⟩
    obtain ⟨more, rfl⟩ := List.head?_eq_some_iff.mp hc
    have hlength := h.longest _ hlonger ⟨more, by simp⟩
    rw [List.length_append, List.length_singleton] at hlength
    omega
  · intro other hother hstart
    rcases Nat.lt_or_ge piece.text.length other.text.length with hlt | hge
    · -- A longer lexeme takes the character behind the piece.
      have hbegins : piece.text <+: other.text :=
        List.prefix_of_prefix_length_le (List.prefix_append _ _) hstart (Nat.le_of_lt hlt)
      obtain ⟨_ | ⟨c, more⟩, hmore⟩ := hbegins
      · rw [← hmore, List.append_nil] at hlt
        exact absurd hlt (Nat.lt_irrefl _)
      · rw [← hmore, List.prefix_append_right_inj] at hstart
        obtain ⟨after, rfl⟩ := hstart
        have hgoes : GoesOn piece.text c :=
          hlexeme.goesOn_of_prefix hother ⟨more, by rw [← hmore]; simp⟩
        exact absurd hgoes (hends c rfl)
    · exact hge

/-! ## Blanks end pieces -/

theorem any_isBlank_symbol : ∀ symbol ∈ Token.symbols, symbol.1.any Text.isBlank = false := by
  decide

theorem not_isBlank_of_wordChar (h : WordStart c ∨ Digit c) : ¬ Text.isBlank c = true := by
  intro hc
  have hblank : opening c = .blank := if_pos hc
  rcases h with hstart | hdigit
  · rw [opening_of_isWordStart (isWordStart_iff.mpr hstart)] at hblank
    cases hblank
  · rw [opening_of_isDigit (isDigit_iff.mpr hdigit)] at hblank
    cases hblank

theorem not_isBlank_of_mark (h : c = '?' ∨ c = '!') : ¬ Text.isBlank c = true := by
  rcases h with rfl | rfl <;> decide

theorem Word.not_isBlank {word : List Char} (h : Word word) :
    ∀ d ∈ word, ¬ Text.isBlank d = true := by
  rcases h with ⟨hstart, hword⟩ | ⟨hstart, hword, hmark⟩ <;> rw [List.forall_mem_cons]
  · exact ⟨not_isBlank_of_wordChar (.inl hstart), fun d hd => not_isBlank_of_wordChar (hword d hd)⟩
  · refine ⟨not_isBlank_of_wordChar (.inl hstart), List.forall_mem_append.mpr ⟨?_, ?_⟩⟩
    · exact fun d hd => not_isBlank_of_wordChar (hword d hd)
    · exact List.forall_mem_singleton.mpr (not_isBlank_of_mark hmark)

/-- The only lexemes of several characters that may end with a blank `c` are line comments. -/
theorem Lexeme.lineComment_of_isBlank {content : Piece.Content}
    (h : Lexeme ⟨text ++ [c], content⟩) (hne : text ≠ []) (hc : Text.isBlank c = true) :
    ∃ comment, '\n' ∉ comment ∧ text ++ [c] = '-' :: '-' :: comment := by
  obtain ⟨first, tail, rfl⟩ := List.exists_cons_of_ne_nil hne
  -- No other lexeme of several characters ends with a blank.
  have hcases := h.opening_cases (List.cons_append ..)
  rcases hopening : opening first <;> rw [hopening] at hcases
  case blank => simp at hcases
  case quote =>
    obtain ⟨body, -, heq⟩ := hcases
    have htext : (first :: tail) ++ [c] = ('"' :: body) ++ ['"'] := congrArg Piece.text heq
    obtain rfl : c = '"' := List.singleton_inj.mp (List.append_inj' htext rfl).2
    exact absurd hc (by decide)
  case brace =>
    obtain ⟨comment, hcomment, heq⟩ := hcases
    obtain ⟨body, rfl⟩ := hcomment.closed
    have htext : (first :: tail) ++ [c] = ('{' :: '-' :: (body ++ ['-'])) ++ ['}'] := by
      simpa using congrArg Piece.text heq
    obtain rfl : c = '}' := List.singleton_inj.mp (List.append_inj' htext rfl).2
    exact absurd hc (by decide)
  case digit =>
    have hblank : opening c = .blank := if_pos hc
    rw [opening_of_isDigit (hcases.1 c (by simp))] at hblank
    cases hblank
  case letter => exact absurd hc (hcases.1.not_isBlank c (by simp))
  case mark =>
    rcases hcases with ⟨comment, hcomment, heq⟩ | ⟨symbol, hsymbol, heq⟩
    · exact ⟨comment, hcomment, congrArg Piece.text heq⟩
    · have htext : (first :: tail) ++ [c] = symbol.1 := congrArg Piece.text heq
      have hmem : c ∈ symbol.1 := by simp [← htext]
      have hblank := any_isBlank_symbol symbol hsymbol
      rw [List.any_eq_false] at hblank
      exact absurd hc (hblank c hmem)

theorem not_goesOn_of_isBlank {d : Char} (hc : Text.isBlank c = true) : ¬ GoesOn [c] d := by
  rintro ⟨content, h⟩
  have hblank : opening c = .blank := if_pos hc
  have hcases := h.opening_cases rfl
  rw [hblank] at hcases
  simp at hcases

/-- No nonempty text `GoesOn` with a newline: line comments stop in front of it. -/
theorem not_goesOn_newline (hne : text ≠ []) : ¬ GoesOn text '\n' := by
  rintro ⟨content, h⟩
  obtain ⟨comment, hcomment, heq⟩ := h.lineComment_of_isBlank hne Text.isBlank_newline
  have hmem : '\n' ∈ '-' :: '-' :: comment := by simp [← heq]
  simp [hcomment] at hmem

/-- No token `GoesOn` with a blank. -/
theorem not_goesOn_of_token {kind : Token.Kind} (h : Lexeme ⟨text, .token kind⟩)
    (hc : Text.isBlank c = true) : ¬ GoesOn text c := by
  rintro ⟨content, hlonger⟩
  have hne : text ≠ [] := h.text_ne_nil
  obtain ⟨comment, -, heq⟩ := hlonger.lineComment_of_isBlank hne hc
  obtain ⟨first, tail, rfl⟩ := List.exists_cons_of_ne_nil hne
  obtain rfl : first = '-' := (List.cons.inj heq).1
  -- The token is the minus sign, so the character behind it would be another one.
  rcases h.opening_cases rfl with ⟨_, -, htoken⟩ | ⟨symbol, hsymbol, htoken⟩
  · simp at htoken
  · have htext : '-' :: tail = symbol.1 := congrArg Piece.text htoken
    have hminus := symbol_eq_minus symbol hsymbol (by rw [← htext]; rfl)
    rw [htext, hminus] at heq
    obtain rfl : c = '-' := (List.cons.inj (List.cons.inj heq).2).1
    exact absurd hc (by decide)

/-! ## Texts without errors -/

theorem Stray.exists_content_eq (h : Stray text piece) : ∃ cause, piece.content = .fault cause := by
  rcases h with _ | _ | _ <;> exact ⟨_, rfl⟩

/-- If `Piece.first` gives no fault, it gives the longest lexeme. -/
theorem longest_first {text : List Char}
    (h : ∀ cause, (Piece.first c text).1.content ≠ .fault cause) :
    Longest (c :: text) (Piece.first c text).1 := by
  rcases (cut_iff_first c text _).mpr rfl with hlongest | ⟨-, hstray⟩
  · exact hlongest
  · obtain ⟨cause, hcause⟩ := hstray.exists_content_eq
    exact absurd hcause (h cause)

end Scriptlet.Lexicon
