import Scriptlet.Proofs.Token.Newline
import Scriptlet.Proofs.Verdict

/-!
# Listings of tokens

The command shows the tokens of a source text on lines of their own: the kind, the lexeme and the
number of the line. A lexeme may have blanks and look like another line, and the payload of a token
is not shown. Still the listing as a whole determines the tokens: a lexeme has no newline, the kind
before it and the number behind it have no blank, and the payload is what the lexeme stands for.

* `Lexeme.content_unique` says that a text is a lexeme in one way only.
* `Token.eq_of_text_eq`: tokens of source texts that are shown in the same way are equal.
* `Token.listing` is the text of the lines, and `Token.eq_of_listing_eq` says that it determines the
  tokens.
* `listing_determines_tokens` is the result.
-/

namespace Scriptlet

open Lexicon Text

/-! ## Lexemes and their kinds -/

/-- The content of a lexeme is determined by its text: no text is both a name and a keyword,
say. -/
theorem Lexicon.Lexeme.content_unique {text : List Char} {content content' : Piece.Content}
    (h : Lexeme ⟨text, content⟩) (h' : Lexeme ⟨text, content'⟩) : content = content' := by
  obtain ⟨c, rest, rfl⟩ := List.exists_cons_of_ne_nil h.text_ne_nil
  -- Either piece is all of the text, so it is the longest one and the first that the reader cuts.
  have hfirst {content : Piece.Content} (h : Lexeme ⟨c :: rest, content⟩) :
      ⟨c :: rest, content⟩ = (Piece.first c rest).1 :=
    (cut_iff_first c rest _).mp
      (.longest ⟨h, List.prefix_refl _, fun other _ hstart => hstart.length_le⟩)
  exact (Piece.mk.inj ((hfirst h).trans (hfirst h').symm)).2

/-- The lexeme of a token is on one line; only blanks and comments have newlines. -/
theorem Lexicon.Lexeme.newline_notMem {text : List Char} {kind : Token.Kind}
    (h : Lexeme ⟨text, .token kind⟩) : '\n' ∉ text := by
  intro hmem
  rcases h.newline_cases hmem with rfl | ⟨rest, rfl⟩
  · exact absurd (h.content_unique (.blank isBlank_newline)) nofun
  · obtain ⟨comment, -, hpiece⟩ : ∃ comment, CommentBody comment ∧ _ := h.opening_cases rfl
    exact absurd (congrArg Piece.content hpiece) nofun

/-! ## Parts of a text -/

/-- A text is cut in one way only in front of the first `mark` in it. -/
theorem append_cons_inj {mark : Char} {text text' rest rest' : List Char} (h : mark ∉ text)
    (h' : mark ∉ text') (heq : text ++ mark :: rest = text' ++ mark :: rest') :
    text = text' ∧ rest = rest' := by
  have hmark (rest : List Char) : ∀ c ∈ (mark :: rest).head?, ¬ c ≠ mark := by
    rintro c hc hne
    exact hne (Option.some.inj hc).symm
  obtain ⟨htext, hrest⟩ := passing_append_inj (fun c hc => ne_of_mem_of_not_mem hc h)
    (fun c hc => ne_of_mem_of_not_mem hc h') (hmark rest) (hmark rest') heq
  exact ⟨htext, (List.cons.inj hrest).2⟩

/-- A text is cut in one way only behind the last `mark` in it. -/
theorem append_cons_inj_last {mark : Char} {text text' rest rest' : List Char} (h : mark ∉ rest)
    (h' : mark ∉ rest') (heq : text ++ mark :: rest = text' ++ mark :: rest') :
    text = text' ∧ rest = rest' := by
  -- The last mark is the first one of the text that is read from its end.
  have hreverse :
      rest.reverse ++ mark :: text.reverse = rest'.reverse ++ mark :: text'.reverse := by
    simpa using congrArg List.reverse heq
  obtain ⟨hrest, htext⟩ := append_cons_inj (mt List.mem_reverse.mp h) (mt List.mem_reverse.mp h')
    hreverse
  exact ⟨List.reverse_injective htext, List.reverse_injective hrest⟩

/-! ## Lines of tokens -/

namespace Token

/-- The lexeme of the token stands for its `kind`, payload included. -/
def IsLexed (token : Token) : Prop :=
  Lexeme ⟨token.lexeme.toList, .token token.kind⟩

theorem Kind.space_notMem_label (kind : Kind) : ' ' ∉ kind.label.toList := by
  cases kind <;> dsimp only [Kind.label] <;> decide

theorem Kind.oneLine_label (kind : Kind) : OneLine kind.label := by
  cases kind <;> dsimp only [Kind.label] <;> decide

/-- The text that shows a token is its label, its lexeme and its line, with spaces between
them. -/
theorem toList_text (token : Token) :
    token.text.toList =
      token.kind.label.toList ++ ' ' :: (token.lexeme.toList ++ ' ' :: token.line.repr.toList) := by
  simp [text]

theorem IsLexed.oneLine_text {token : Token} (h : token.IsLexed) : OneLine token.text := by
  have hspace : OneLine " " := by decide
  have hlexeme : OneLine token.lexeme := h.newline_notMem
  exact (((token.kind.oneLine_label.append hspace).append hlexeme).append hspace).append
    (oneLine_repr token.line)

/-- Tokens that satisfy `IsLexed` are determined by `Token.text`: the kind ends at the first
space, the line begins behind the last one, and what is between them is the lexeme, which
stands for the payload. -/
theorem eq_of_text_eq {token token' : Token} (h : token.IsLexed) (h' : token'.IsLexed)
    (heq : token.text = token'.text) : token = token' := by
  have hparts := congrArg String.toList heq
  rw [toList_text, toList_text] at hparts
  obtain ⟨-, hrest⟩ := append_cons_inj token.kind.space_notMem_label
    token'.kind.space_notMem_label hparts
  have hspace (n : Nat) : ' ' ∉ n.repr.toList := notMem_repr (by decide) n
  obtain ⟨hlexeme, hline⟩ := append_cons_inj_last (hspace token.line) (hspace token'.line) hrest
  -- The name of the kind leaves the payload open, but the lexeme does not.
  have hkind : token.kind = token'.kind := by
    unfold IsLexed at h
    rw [hlexeme] at h
    exact Piece.Content.token.inj (h.content_unique h')
  obtain ⟨kind, lexeme, line⟩ := token
  obtain ⟨kind', lexeme', line'⟩ := token'
  obtain rfl : kind = kind' := hkind
  obtain rfl : lexeme = lexeme' := String.toList_inj.mp hlexeme
  obtain rfl : line = line' := Nat.repr_inj.mp (String.toList_inj.mp hline)
  rfl

/-- The `Token.text` of each token, on a line of its own. -/
def listing (tokens : List Token) : String :=
  String.join (tokens.map fun token => token.text ++ "\n")

theorem toList_listing_cons (token : Token) (tokens : List Token) :
    (listing (token :: tokens)).toList =
      token.text.toList ++ '\n' :: (listing tokens).toList := by
  simp [listing]

/-- Lists of tokens that satisfy `IsLexed` are determined by their `listing`. -/
theorem eq_of_listing_eq {tokens tokens' : List Token} (h : ∀ token ∈ tokens, token.IsLexed)
    (h' : ∀ token ∈ tokens', token.IsLexed) (heq : listing tokens = listing tokens') :
    tokens = tokens' := by
  -- The first newline ends the first line of either listing, since no line has one in it.
  replace heq := congrArg String.toList heq
  induction tokens generalizing tokens' with
  | nil =>
    rcases tokens' with _ | ⟨token', tokens'⟩
    · rfl
    · rw [toList_listing_cons] at heq
      cases List.append_ne_nil_of_right_ne_nil _ (List.cons_ne_nil _ _) heq.symm
  | cons token tokens ih =>
    rcases tokens' with _ | ⟨token', tokens'⟩
    · rw [toList_listing_cons] at heq
      cases List.append_ne_nil_of_right_ne_nil _ (List.cons_ne_nil _ _) heq
    · rw [List.forall_mem_cons] at h h'
      rw [toList_listing_cons, toList_listing_cons] at heq
      obtain ⟨htext, hrest⟩ := append_cons_inj h.1.oneLine_text h'.1.oneLine_text heq
      rw [eq_of_text_eq h.1 h'.1 (String.toList_inj.mp htext), ih h.2 h'.2 hrest]

end Token

/-- **The listing of a source text determines its tokens.** For any two source texts, with or
without lexical errors, the listings of the tokens that `lex` gives are equal as whole texts
exactly if the tokens are, with their kinds, payloads, lexemes and lines. Moreover, `listing`
is the text that the command `tokenize` appends to the output, for any file with the contents
`source` and an output that takes everything. -/
theorem listing_determines_tokens (source source' : String) :
    (Token.listing (lex source).1 = Token.listing (lex source').1 ↔
        (lex source).1 = (lex source').1) ∧
      ∀ (line : CommandLine) (surroundings : Surroundings) (name : String),
        surroundings.readFile name = .ok source → surroundings.output.room = none →
        ((line.on "tokenize" name).report surroundings).output =
          surroundings.output.append (Token.listing (lex source).1) := by
  refine ⟨⟨Token.eq_of_listing_eq (fun _ => lexeme_of_mem_lex) fun _ => lexeme_of_mem_lex,
    congrArg _⟩, fun line surroundings name hfile hroom => ?_⟩
  rw [report_tokenize_of_readFile hfile hroom]
  unfold linesOf
  rw [List.map_map]
  rfl

/-- A comment and an error between tokens leave no trace in the listing; a blank in a string
is not mistaken for the one in front of a line number. -/
theorem lookalikes_are_listed_apart :
    let line : CommandLine := ⟨"tplang", [], none, none⟩
    let shown (source : String) := ((line.on "tokenize" "a").report (.holding source)).output
    shown "\"1 1\" x" = Sink.unlimited.append "STRING \"1 1\" 1\nIDENTIFIER x 1\n" ∧
      shown "\"1 1\" x" = shown "\"1 1\"$x -- y" ∧
      Token.listing (lex "\"1 1\" x").1 ≠ Token.listing (lex "\"1\" 1 x").1 := by
  intro line shown
  -- The tokens are computed, and their listings compared by the theorem.
  have htokens : (lex "\"1 1\" x").1 =
      [⟨.string "1 1", "\"1 1\"", 1⟩, ⟨.identifier "x", "x", 1⟩] := by cbv
  have hcommented : (lex "\"1 1\"$x -- y").1 =
      [⟨.string "1 1", "\"1 1\"", 1⟩, ⟨.identifier "x", "x", 1⟩] := by cbv
  have happart : (lex "\"1\" 1 x").1 =
      [⟨.string "1", "\"1\"", 1⟩, ⟨.number 1, "1", 1⟩, ⟨.identifier "x", "x", 1⟩] := by cbv
  obtain ⟨hlisting, hshown⟩ := listing_determines_tokens "\"1 1\" x" "\"1\" 1 x"
  obtain ⟨-, hshown'⟩ := listing_determines_tokens "\"1 1\"$x -- y" ""
  have hreport : shown "\"1 1\" x" = _ := hshown line (.holding "\"1 1\" x") "a" rfl rfl
  have hreport' : shown "\"1 1\"$x -- y" = _ :=
    hshown' line (.holding "\"1 1\"$x -- y") "a" rfl rfl
  rw [hreport, hreport', hcommented, htokens]
  refine ⟨rfl, rfl, fun h => ?_⟩
  rw [← htokens, hlisting, htokens, happart] at h
  exact absurd h (by decide)

end Scriptlet
