import Scriptlet.Proofs.Token.Boundary

/-!
# Layouts

A layout of some tokens is a text in which the tokens stand in order, with blanks and comments in
front of, between and behind them. Two tokens may touch where the first one does not go on with the
first character of the second one. The texts without lexical errors are exactly the layouts of their
tokens.

* `Layout text kinds` says that the text is a layout of tokens of these kinds.
* `Layout.items_eq` and `layout_of_items`: the token stream of a layout has the tokens and no error,
  and no other text has such a stream.
* `Spelled` says that some text is a token of a kind. `Spelled.payload` and `spelled_of_payload`:
  the payload decides.
* `exists_layout`: tokens that can be spelled have a layout.
* `lexeme_of_mem_lex` and `spelled_of_mem_lex`: the tokens of every source text are what their
  lexemes stand for, errors in it or not, and so they can be spelled.
-/

namespace Scriptlet.Lexicon

variable {text : List Char} {kinds : List Token.Kind} {tokens : List Token}

/-- The text consists of tokens of these `kinds`, in order, with blanks and comments anywhere
around them. Each piece ends where the next one begins, because it does not go on with the
character there. -/
inductive Layout : List Char → List Token.Kind → Prop where
  | done : Layout [] []
  /-- A blank or a comment. A line comment takes the rest of its line, so `hends` has a
  newline or the end of the text behind it. -/
  | gap {piece rest : List Char} {kinds : List Token.Kind} (hpiece : Lexeme ⟨piece, .skipped⟩)
      (hends : ∀ c ∈ rest.head?, ¬ GoesOn piece c) (hrest : Layout rest kinds) :
      Layout (piece ++ rest) kinds
  | token {piece rest : List Char} {kind : Token.Kind} {kinds : List Token.Kind}
      (hpiece : Lexeme ⟨piece, .token kind⟩) (hends : ∀ c ∈ rest.head?, ¬ GoesOn piece c)
      (hrest : Layout rest kinds) : Layout (piece ++ rest) (kind :: kinds)

/-! ## Streams without errors -/

theorem eq_map_of_errorsOf_eq_nil {items : List TokenItem} (h : errorsOf items = []) :
    items = (tokensOf items).map .ok := by
  induction items with
  | nil => rfl
  | cons item items ih =>
    rcases item with error | token
    · simp [errorsOf] at h
    · have hrest : errorsOf items = [] := by simpa [errorsOf] using h
      rw [tokensOf, List.filterMap_cons, List.map_cons, ← tokensOf, ← ih hrest]

theorem tokensOf_map_ok (tokens : List Token) : tokensOf (tokens.map .ok) = tokens := by
  induction tokens with
  | nil => rfl
  | cons token tokens ih => exact congrArg (token :: ·) ih

theorem errorsOf_map_ok (tokens : List Token) : errorsOf (tokens.map .ok) = [] := by
  induction tokens with
  | nil => rfl
  | cons token tokens ih => exact ih

/-- The stream has the items `tokens.map .ok` exactly if `lex` gives `tokens` and no error. -/
theorem lex_eq_iff {source : String} :
    lex source = (tokens, []) ↔ tokenStream source = tokens.map .ok := by
  rw [lex, Prod.mk.injEq]
  constructor
  · rintro ⟨rfl, herrors⟩
    exact eq_map_of_errorsOf_eq_nil herrors
  · intro h
    rw [h]
    exact ⟨tokensOf_map_ok tokens, errorsOf_map_ok tokens⟩

theorem content_ne_fault_of_items {line : Nat} {ps : List Piece}
    (h : itemsOfPieces line ps = tokens.map .ok) :
    ∀ piece ∈ ps, ∀ cause, piece.content ≠ .fault cause := by
  induction ps generalizing line tokens with
  | nil => simp
  | cons first ps ih =>
    rw [itemsOfPieces] at h
    intro piece hmem cause
    -- The items of the first piece and those of the others are tokens only.
    obtain ⟨front, back, rfl, hfront, hback⟩ := List.append_eq_map_iff.mp h
    rcases List.mem_cons.mp hmem with rfl | hmem
    · intro hcontent
      rw [Piece.item?, hcontent] at hfront
      rcases front with _ | ⟨token, front⟩ <;> simp at hfront
    · exact ih hback.symm piece hmem cause

/-! ## Reading a layout -/

theorem itemsOfPieces_gap {piece rest : List Char} (hpiece : Lexeme ⟨piece, .skipped⟩)
    (hends : ∀ c ∈ rest.head?, ¬ GoesOn piece c) (line : Nat) :
    itemsOfPieces line (pieces (piece ++ rest)) =
      itemsOfPieces (line + piece.count '\n') (pieces rest) := by
  let gap : Piece := ⟨piece, .skipped⟩
  have hcut : Cut (gap.text ++ rest) gap := .longest (longest_append_iff.mpr ⟨hpiece, hends⟩)
  show itemsOfPieces line (pieces (gap.text ++ rest)) = _
  rw [pieces_of_cut hcut]
  rfl

theorem itemsOfPieces_token {piece rest : List Char} {kind : Token.Kind}
    (hpiece : Lexeme ⟨piece, .token kind⟩) (hends : ∀ c ∈ rest.head?, ¬ GoesOn piece c)
    (line : Nat) :
    itemsOfPieces line (pieces (piece ++ rest)) =
      .ok ⟨kind, String.ofList piece, line⟩ ::
        itemsOfPieces (line + piece.count '\n') (pieces rest) := by
  let token : Piece := ⟨piece, .token kind⟩
  have hcut : Cut (token.text ++ rest) token :=
    .longest (longest_append_iff.mpr ⟨hpiece, hends⟩)
  show itemsOfPieces line (pieces (token.text ++ rest)) = _
  rw [pieces_of_cut hcut]
  rfl

/-- The token stream of a `Layout` has tokens of its `kinds` and no error, whatever line it
starts on. -/
theorem Layout.items_eq (h : Layout text kinds) (line : Nat) :
    ∃ tokens : List Token, itemsOfPieces line (pieces text) = tokens.map .ok ∧
      tokens.map Token.kind = kinds := by
  induction h generalizing line with
  | done => exact ⟨[], by rw [pieces]; rfl, rfl⟩
  | @gap piece rest kinds hpiece hends _ ih =>
    obtain ⟨tokens, hitems, hkinds⟩ := ih (line + piece.count '\n')
    exact ⟨tokens, by rw [itemsOfPieces_gap hpiece hends, hitems], hkinds⟩
  | @token piece rest kind kinds hpiece hends _ ih =>
    obtain ⟨tokens, hitems, hkinds⟩ := ih (line + piece.count '\n')
    refine ⟨⟨kind, String.ofList piece, line⟩ :: tokens, ?_, by rw [List.map_cons, hkinds]⟩
    rw [itemsOfPieces_token hpiece hends, hitems]
    rfl

/-- A text whose token stream is `tokens.map .ok` is a `Layout` of the kinds of `tokens`. -/
theorem layout_of_items {line : Nat} (h : itemsOfPieces line (pieces text) = tokens.map .ok) :
    Layout text (tokens.map Token.kind) := by
  fun_induction pieces text generalizing line tokens with
  | case1 =>
    obtain rfl : tokens = [] := by simpa [itemsOfPieces, eq_comm] using h
    exact .done
  | case2 c text ih =>
    have hfaultless := content_ne_fault_of_items h
    have happend := Piece.first_text_append c text
    have hlongest := longest_first (hfaultless _ List.mem_cons_self)
    rw [← happend] at hlongest ⊢
    -- What the first piece is tells whether it stands in a gap or is a token.
    obtain ⟨hlexeme, hends⟩ := longest_append_iff.mp hlongest
    rw [itemsOfPieces] at h
    rcases hpiece : (Piece.first c text).1 with ⟨piece, _ | kind | cause⟩ <;>
      rw [hpiece] at hlexeme hends h
    · exact .gap hlexeme hends (ih h)
    · obtain ⟨token, rest, rfl, htoken, hrest⟩ := List.map_eq_cons_iff.mp h.symm
      obtain rfl := Except.ok.inj htoken
      exact .token hlexeme hends (ih hrest.symm)
    · exact absurd (congrArg Piece.content hpiece) (hfaultless _ List.mem_cons_self cause)

/-! ## Tokens that can be spelled -/

/-- Some text is a lexeme for this `kind` of token. -/
def Spelled (kind : Token.Kind) : Prop :=
  ∃ text, Lexeme ⟨text, .token kind⟩

/-- A name of the language: a `Word` that is not among the `Token.reservedWords`. -/
def IsName (name : String) : Prop :=
  Word name.toList ∧ ∀ kind, (name, kind) ∉ Token.reservedWords

/-- What the payload of a kind must be for the kind to be `Spelled`: a name, a number in the
range of `Integer`, the body of a string literal, or nothing. -/
def Payload : Token.Kind → Prop
  | .identifier name => IsName name
  | .number value => 0 ≤ value ∧ value ≤ Integer.greatest
  | .string text => StringBody text.toList
  | _ => True

theorem payload_of_mem_reservedWords {word : String} {kind : Token.Kind}
    (h : (word, kind) ∈ Token.reservedWords) : Payload kind := by
  cases kind <;> trivial

theorem payload_of_mem_symbols {spelling : List Char} {kind : Token.Kind}
    (h : (spelling, kind) ∈ Token.symbols) : Payload kind := by
  cases kind <;> trivial

/-- A lexeme of the kind shows its payload, so a kind that is `Spelled` has the right
`Payload`. -/
theorem Spelled.payload {kind : Token.Kind} (h : Spelled kind) : Payload kind := by
  obtain ⟨text, h⟩ := h
  generalize hpiece : (⟨text, .token kind⟩ : Piece) = piece at h
  have hkind : piece.content = .token kind := by rw [← hpiece]
  rcases h with _ | _ | _ | h | ⟨-, -, h⟩ | _ | ⟨-, hreserved⟩ | ⟨h, hfree⟩ | h <;>
    cases hkind
  case string => simpa [Payload] using h
  -- The grammar has a number only where it is in range.
  case number =>
    refine ⟨Int.natCast_nonneg _, ?_⟩
    rw [Integer.greatest]
    omega
  case keyword => exact payload_of_mem_reservedWords hreserved
  case name => exact ⟨by simpa using h, hfree⟩
  case symbol => exact payload_of_mem_symbols h

theorem word_of_mem_reservedWords {word : String} {kind : Token.Kind}
    (h : (word, kind) ∈ Token.reservedWords) : Word word.toList := by
  have hwords : ∀ entry ∈ Token.reservedWords, entry.1.toList.head?.any Piece.isWordStart = true ∧
      entry.1.toList.tail.all Piece.isWordChar = true := by
    decide
  obtain ⟨hstart, hrest⟩ := hwords _ h
  rcases htext : word.toList with _ | ⟨c, rest⟩
  · simp [htext] at hstart
  · rw [htext] at hstart hrest
    exact .plain (isWordStart_iff.mp hstart) fun d hd =>
      isWordChar_iff.mp (List.all_eq_true.mp hrest d hd)

theorem spelled_of_mem_reservedWords {kind : Token.Kind}
    (h : kind ∈ Token.reservedWords.map Prod.snd) : Spelled kind := by
  obtain ⟨⟨word, kind⟩, hmem, rfl⟩ := List.mem_map.mp h
  exact ⟨_, .keyword (word_of_mem_reservedWords hmem) (by rwa [String.ofList_toList])⟩

theorem spelled_of_mem_symbols {kind : Token.Kind} (h : kind ∈ Token.symbols.map Prod.snd) :
    Spelled kind := by
  obtain ⟨⟨spelling, kind⟩, hmem, rfl⟩ := List.mem_map.mp h
  exact ⟨_, .symbol hmem⟩

/-- Decimal notation spells every number up to `Integer.greatest`. -/
theorem spelled_number {value : Int} (hnonneg : 0 ≤ value) (hle : value ≤ Integer.greatest) :
    Spelled (.number value) := by
  obtain ⟨n, rfl⟩ := Int.eq_ofNat_of_zero_le hnonneg
  have hdigits : ∀ c ∈ Nat.toDigits 10 n, Digit c := fun c => digit_of_mem_toDigits
  have hvalue : Integer.ofDigits (Nat.toDigits 10 n) < 2 ^ 63 := by
    rw [Integer.ofDigits_toDigits]
    rw [Integer.greatest] at hle
    omega
  have hlexeme := Lexeme.number Nat.toDigits_ne_nil hdigits hvalue
  rw [Integer.ofDigits_toDigits] at hlexeme
  exact ⟨_, hlexeme⟩

/-- A kind with the right `Payload` is `Spelled`. -/
theorem spelled_of_payload {kind : Token.Kind} (h : Payload kind) : Spelled kind := by
  cases kind with
  | identifier name =>
    have hname : Lexeme ⟨name.toList, .token (.identifier (String.ofList name.toList))⟩ :=
      .name h.1 (by simpa using h.2)
    rw [String.ofList_toList] at hname
    exact ⟨_, hname⟩
  | number value => exact spelled_number h.1 h.2
  | string text =>
    have hstring := Lexeme.string h
    rw [String.ofList_toList] at hstring
    exact ⟨_, hstring⟩
  | write | read | random | function | endBlock =>
    exact spelled_of_mem_reservedWords (by decide)
  | _ => exact spelled_of_mem_symbols (by decide)

/-- A `Layout` exists for all kinds that are `Spelled`: a space behind each token keeps it
from going on. -/
theorem exists_layout (h : ∀ kind ∈ kinds, Spelled kind) : ∃ text, Layout text kinds := by
  induction kinds with
  | nil => exact ⟨[], .done⟩
  | cons kind kinds ih =>
    obtain ⟨text, hlexeme⟩ := h kind List.mem_cons_self
    obtain ⟨rest, hrest⟩ := ih fun other hmem => h other (List.mem_cons_of_mem _ hmem)
    have hblank : Text.isBlank ' ' = true := by decide
    refine ⟨text ++ ([' '] ++ rest), .token hlexeme ?_ (.gap (.blank hblank) ?_ hrest)⟩
    · rintro c hc
      obtain rfl : ' ' = c := by simpa using hc
      exact not_goesOn_of_token hlexeme hblank
    · exact fun c _ => not_goesOn_of_isBlank hblank

theorem Layout.spelled (h : Layout text kinds) : ∀ kind ∈ kinds, Spelled kind := by
  induction h with
  | done => simp
  | gap _ _ _ ih => exact ih
  | token hpiece _ _ ih =>
    intro kind hmem
    rcases List.mem_cons.mp hmem with rfl | hmem
    · exact ⟨_, hpiece⟩
    · exact ih kind hmem

/-! ## Tokens of a source text -/

theorem mem_of_mem_tokensOf {line : Nat} {ps : List Piece} {token : Token}
    (h : token ∈ tokensOf (itemsOfPieces line ps)) :
    ⟨token.lexeme.toList, .token token.kind⟩ ∈ ps := by
  induction ps generalizing line with
  | nil => cases h
  | cons piece ps ih =>
    rw [itemsOfPieces, tokensOf, List.filterMap_append, List.mem_append] at h
    rcases h with h | h
    · obtain ⟨text, _ | kind | cause⟩ := piece
      · cases h
      · obtain rfl := List.mem_singleton.mp h
        rw [String.toList_ofList]
        exact List.mem_cons_self
      · cases h
    · exact List.mem_cons_of_mem piece (ih h)

/-- The lexemes that `lex` gives are lexemes of the grammar, and each token has the kind that
its lexeme stands for, payload included. -/
theorem lexeme_of_mem_lex {source : String} {token : Token} (h : token ∈ (lex source).1) :
    Lexeme ⟨token.lexeme.toList, .token token.kind⟩ := by
  obtain ⟨rest, -, hcut⟩ := exists_cut_of_mem_pieces (mem_of_mem_tokensOf h)
  generalize token.lexeme.toList = text at hcut ⊢
  rcases hcut with ⟨hlexeme, -, -⟩ | ⟨-, hstray⟩
  · exact hlexeme
  · cases hstray

theorem spelled_of_mem_lex {source : String} {token : Token} (h : token ∈ (lex source).1) :
    Spelled token.kind :=
  ⟨_, lexeme_of_mem_lex h⟩

theorem isName_of_mem_lex {source : String} {token : Token} {name : String}
    (h : token ∈ (lex source).1) (hkind : token.kind = .identifier name) : IsName name := by
  have hpayload := (spelled_of_mem_lex h).payload
  rwa [hkind] at hpayload

end Scriptlet.Lexicon
