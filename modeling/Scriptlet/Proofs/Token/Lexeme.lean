import Mathlib.Data.List.TakeWhile
import Scriptlet.Proofs.Lexicon

/-!
# Lexemes

How the lexemes of the grammar can be told apart. Their first character narrows down what they are,
and the readers of numbers, words, comments and string literals decide the side conditions that the
grammar has for them.

* `Lexeme.opening_cases` sorts the lexemes by their first character.
* `lexeme_ofDigits` and `lexeme_ofWord`: every number and every word is a lexeme, as the reader
  classifies it.
* `wordTail` is what the reader takes into a word, and no word goes on for longer.
* `CommentBody.closeComment_append` and `StringBody.closeString_append`, each with its converse: the
  search for a closing mark finds exactly the comments and the literals.
-/

namespace Scriptlet.Lexicon

/-! ## Characters -/

/-- The test `Char.isDigit` decides `Digit`. -/
theorem isDigit_iff {c : Char} : c.isDigit = true ↔ Digit c := by
  simp [Char.isDigit, Digit, Char.le_def]

theorem digit_of_mem_toDigits {n : Nat} {c : Char} (h : c ∈ Nat.toDigits 10 n) : Digit c :=
  isDigit_iff.mp (Nat.isDigit_of_mem_toDigits (by decide) (by decide) h)

/-- The test `Piece.isWordStart` decides `WordStart`. -/
theorem isWordStart_iff {c : Char} : Piece.isWordStart c = true ↔ WordStart c := by
  show ((('A' ≤ c ∧ c ≤ 'Z' : Bool) || ('a' ≤ c && c ≤ 'z')) || c == '_') = true ↔ _
  simp only [WordStart, Bool.or_eq_true, Bool.and_eq_true, decide_eq_true_eq, beq_iff_eq]
  rw [or_assoc, or_left_comm]

/-- The test `Piece.isWordChar` decides which characters a word goes on with. -/
theorem isWordChar_iff {c : Char} : Piece.isWordChar c = true ↔ WordStart c ∨ Digit c := by
  rw [← isWordStart_iff, ← isDigit_iff]
  simp only [Piece.isWordChar, Piece.isWordStart, Char.isAlphanum, Bool.or_eq_true]
  exact or_right_comm

/-- What the first character of a lexeme tells about it: `mark` stands for symbols and line
comments. -/
inductive Opening where
  | blank
  | quote
  | brace
  | digit
  | letter
  | mark
  deriving DecidableEq

/-- The sort of lexemes that start with the character `c`. -/
def opening (c : Char) : Opening :=
  if Text.isBlank c then .blank
  else if c = '"' then .quote
  else if c = '{' then .brace
  else if c.isDigit then .digit
  else if Piece.isWordStart c then .letter
  else .mark

theorem toNat_of_isDigit {c : Char} (h : c.isDigit = true) : 48 ≤ c.toNat ∧ c.toNat ≤ 57 :=
  Char.isDigit_iff_toNat.mp h

theorem toNat_of_isWordStart {c : Char} (h : Piece.isWordStart c = true) :
    (97 ≤ c.toNat ∧ c.toNat ≤ 122) ∨ (65 ≤ c.toNat ∧ c.toNat ≤ 90) ∨ c.toNat = 95 := by
  rcases isWordStart_iff.mp h with hlower | hupper | rfl
  · exact .inl hlower
  · exact .inr (.inl hupper)
  · exact .inr (.inr rfl)

/-- A blank with a code point below 128 has one of at most 32, so it is no letter, digit or
mark. -/
theorem toNat_of_isBlank {c : Char} (h : Text.isBlank c = true) :
    c.toNat ≤ 32 ∨ 128 ≤ c.toNat := by
  unfold Text.isBlank at h
  simp only [Bool.or_eq_true, Bool.and_eq_true, decide_eq_true_eq, beq_iff_eq] at h
  omega

theorem opening_of_isDigit {c : Char} (h : c.isDigit = true) : opening c = .digit := by
  have hrange := toNat_of_isDigit h
  have hblank : ¬ Text.isBlank c = true := by
    intro hc
    have := toNat_of_isBlank hc
    omega
  have hquote : c ≠ '"' := by
    rintro rfl
    exact absurd hrange (by decide)
  have hbrace : c ≠ '{' := by
    rintro rfl
    exact absurd hrange (by decide)
  unfold opening
  rw [if_neg hblank, if_neg hquote, if_neg hbrace, if_pos h]

theorem opening_of_isWordStart {c : Char} (h : Piece.isWordStart c = true) :
    opening c = .letter := by
  -- The four classes that are asked for first lie outside the ranges of letters.
  have hrange := toNat_of_isWordStart h
  have hblank : ¬ Text.isBlank c = true := by
    intro hc
    have := toNat_of_isBlank hc
    omega
  have hquote : c ≠ '"' := by
    rintro rfl
    exact absurd hrange (by decide)
  have hbrace : c ≠ '{' := by
    rintro rfl
    exact absurd hrange (by decide)
  have hdigit : ¬ c.isDigit = true := by
    intro hc
    have := toNat_of_isDigit hc
    omega
  unfold opening
  rw [if_neg hblank, if_neg hquote, if_neg hbrace, if_neg hdigit, if_pos h]

theorem Word.opening {c : Char} {rest : List Char} (h : Word (c :: rest)) :
    opening c = .letter := by
  rcases h with ⟨hstart, _⟩ | ⟨hstart, _, _⟩ <;>
    exact opening_of_isWordStart (isWordStart_iff.mpr hstart)

/-! ## Numbers and words

The reader decides by looking a number or word up what the grammar says by a side condition. -/

/-- Below `2 ^ 63`, `Piece.ofDigits` makes a token of a run of digits. -/
theorem ofDigits_of_lt {digits : List Char} (h : Integer.ofDigits digits < 2 ^ 63) :
    Piece.ofDigits digits = ⟨digits, .token (.number (Integer.ofDigits digits))⟩ := by
  have hfits : Integer.Fits (Integer.ofDigits digits) := by
    unfold Integer.Fits Integer.least Integer.greatest
    omega
  unfold Piece.ofDigits
  rw [Integer.checked_eq_some_iff.mpr ⟨hfits, rfl⟩]

/-- From `2 ^ 63` on, `Piece.ofDigits` makes a fault of a run of digits. -/
theorem ofDigits_of_le {digits : List Char} (h : 2 ^ 63 ≤ Integer.ofDigits digits) :
    Piece.ofDigits digits = ⟨digits, .fault (.numberOutOfRange (String.ofList digits))⟩ := by
  have hfits : ¬ Integer.Fits (Integer.ofDigits digits) := by
    unfold Integer.Fits Integer.least Integer.greatest
    omega
  unfold Piece.ofDigits
  rw [Integer.checked_eq_none_iff.mpr hfits]

/-- A run of digits is a lexeme of the grammar with the content that `Piece.ofDigits` gives
it, in range or not. -/
theorem lexeme_ofDigits {digits : List Char} (hne : digits ≠ [])
    (hdigits : ∀ c ∈ digits, c.isDigit = true) : Lexeme (Piece.ofDigits digits) := by
  have hgrammar : ∀ c ∈ digits, Digit c := fun c hc => isDigit_iff.mp (hdigits c hc)
  rcases Nat.lt_or_ge (Integer.ofDigits digits) (2 ^ 63) with h | h
  · rw [ofDigits_of_lt h]
    exact .number hne hgrammar h
  · rw [ofDigits_of_le h]
    exact .numberOutOfRange hne hgrammar h

/-- No spelling is reserved twice, so `Piece.ofWord` finds the kind of each reserved word. -/
theorem ofWord_of_mem {word : List Char} {kind : Token.Kind}
    (h : (String.ofList word, kind) ∈ Token.reservedWords) :
    Piece.ofWord word = ⟨word, .token kind⟩ := by
  -- The table is short enough to look up each of its entries.
  have hkind : ∀ entry ∈ Token.reservedWords, Token.Kind.ofWord entry.1 = entry.2 := by decide
  unfold Piece.ofWord
  rw [hkind _ h]

theorem ofWord_of_not_mem {word : List Char}
    (h : ∀ kind, (String.ofList word, kind) ∉ Token.reservedWords) :
    Piece.ofWord word = ⟨word, .token (.identifier (String.ofList word))⟩ := by
  have hlookup : Token.reservedWords.lookup (String.ofList word) = none := by
    rw [List.lookup_eq_none_iff]
    rintro ⟨reserved, kind⟩ hmem
    rw [bne_iff_ne]
    rintro rfl
    exact h kind hmem
  unfold Piece.ofWord
  rw [Token.Kind.ofWord_eq_identifier hlookup]

/-- A `Word` is a lexeme of the grammar with the content that `Piece.ofWord` gives it,
reserved or not. -/
theorem lexeme_ofWord {word : List Char} (h : Word word) : Lexeme (Piece.ofWord word) := by
  by_cases hreserved : ∃ kind, (String.ofList word, kind) ∈ Token.reservedWords
  · obtain ⟨kind, hkind⟩ := hreserved
    rw [ofWord_of_mem hkind]
    exact .keyword h hkind
  · rw [not_exists] at hreserved
    rw [ofWord_of_not_mem hreserved]
    exact .name h hreserved

/-! ## The length of words -/

theorem prefix_takeWhile {α : Type} {p : α → Bool} {l text : List α} (h : l <+: text)
    (hall : ∀ x ∈ l, p x = true) : l <+: text.takeWhile p := by
  obtain ⟨rest, rfl⟩ := h
  rw [List.takeWhile_append_of_pos hall]
  exact List.prefix_append _ _

/-- A list is cut in one way only into elements that satisfy `p` and a rest that begins with
one that does not. -/
theorem passing_append_inj {α : Type} {p : α → Prop} {l l' rest rest' : List α}
    (h : ∀ x ∈ l, p x) (h' : ∀ x ∈ l', p x) (hrest : ∀ x ∈ rest.head?, ¬ p x)
    (hrest' : ∀ x ∈ rest'.head?, ¬ p x) (heq : l ++ rest = l' ++ rest') :
    l = l' ∧ rest = rest' := by
  -- A part that is shorter than the other would leave an element that passes in front of the
  -- rest.
  induction l generalizing l' with
  | nil =>
    rcases l' with _ | ⟨x, l'⟩
    · exact ⟨rfl, heq⟩
    · rw [List.nil_append] at heq
      rw [heq] at hrest
      exact absurd (h' x List.mem_cons_self) (hrest x rfl)
  | cons x l ih =>
    rw [List.forall_mem_cons] at h
    rcases l' with _ | ⟨x', l'⟩
    · rw [List.nil_append] at heq
      rw [← heq] at hrest'
      exact absurd h.1 (hrest' x rfl)
    · rw [List.forall_mem_cons] at h'
      obtain ⟨rfl, htail⟩ := List.cons.inj heq
      obtain ⟨rfl, rfl⟩ := ih h.2 h'.2 htail
      exact ⟨rfl, rfl⟩

/-- The test `Piece.isWordMark` decides which marks may end a word. -/
theorem isWordMark_iff {c : Char} : Piece.isWordMark c = true ↔ c = '?' ∨ c = '!' := by
  simp [Piece.isWordMark]

theorem wordMark_cases (text : List Char) :
    (Piece.wordMark text).1 = [] ∨
      ∃ mark, (mark = '?' ∨ mark = '!') ∧ (Piece.wordMark text).1 = [mark] := by
  rcases text with _ | ⟨c, text⟩
  · exact .inl rfl
  · by_cases hc : Piece.isWordMark c = true
    · exact .inr ⟨c, isWordMark_iff.mp hc, by simp [Piece.wordMark, hc]⟩
    · exact .inl (by simp [Piece.wordMark, hc])

/-- What `Piece.first` takes into a word after its first character: word characters, and one
mark if there is one. -/
def wordTail (text : List Char) : List Char :=
  text.takeWhile Piece.isWordChar ++ (Piece.wordMark (text.dropWhile Piece.isWordChar)).1

theorem wordTail_prefix (text : List Char) : wordTail text <+: text := by
  refine ⟨(Piece.wordMark (text.dropWhile Piece.isWordChar)).2, ?_⟩
  rw [wordTail, List.append_assoc, Piece.wordMark_append, List.takeWhile_append_dropWhile]

theorem word_wordTail {c : Char} (hc : Piece.isWordStart c = true) (text : List Char) :
    Word (c :: wordTail text) := by
  have hstart := isWordStart_iff.mp hc
  have hword : ∀ d ∈ text.takeWhile Piece.isWordChar, WordStart d ∨ Digit d :=
    fun d hd => isWordChar_iff.mp (List.mem_takeWhile_imp hd)
  unfold wordTail
  rcases wordMark_cases (text.dropWhile Piece.isWordChar) with hmark | ⟨mark, hmark, hfst⟩
  · rw [hmark, List.append_nil]
    exact .plain hstart hword
  · rw [hfst]
    exact .marked hstart hword hmark

/-- No word that a text starts with is longer than the first character and `wordTail`. -/
theorem Word.tail_prefix {c : Char} {word text : List Char} (h : Word (c :: word))
    (hstart : word <+: text) : word <+: wordTail text := by
  rcases h with ⟨-, hword⟩ | @⟨-, word, mark, -, hword, hmark⟩
  · have hall : ∀ d ∈ word, Piece.isWordChar d = true :=
      fun d hd => isWordChar_iff.mpr (hword d hd)
    exact (prefix_takeWhile hstart hall).trans (List.prefix_append _ _)
  · obtain ⟨rest, rfl⟩ := hstart
    have hall : ∀ d ∈ word, Piece.isWordChar d = true :=
      fun d hd => isWordChar_iff.mpr (hword d hd)
    -- The mark is no word character, so the run of word characters ends before it.
    have hstop : ¬ Piece.isWordChar mark = true := by
      rcases hmark with rfl | rfl <;> decide
    have htake : (word ++ [mark] ++ rest).takeWhile Piece.isWordChar = word := by
      rw [List.append_assoc, List.takeWhile_append_of_pos hall]
      simp [hstop]
    have hdrop : (word ++ [mark] ++ rest).dropWhile Piece.isWordChar = mark :: rest := by
      rw [List.append_assoc, List.dropWhile_append_of_pos hall]
      simp [hstop]
    have hmark' : (Piece.wordMark (mark :: rest)).1 = [mark] := by
      simp [Piece.wordMark, isWordMark_iff.mpr hmark]
    have htail : wordTail (word ++ [mark] ++ rest) = word ++ [mark] := by
      rw [wordTail, htake, hdrop, hmark']
    exact ⟨[], by rw [htail, List.append_nil]⟩

/-! ## Lexemes by their first character -/

theorem opening_of_symbol : ∀ symbol ∈ Token.symbols,
    symbol.1.head?.map opening = some .mark := by
  decide

/-- For each `Opening` of the first character, the lexemes that start with it. -/
theorem Lexeme.opening_cases {piece : Piece} (h : Lexeme piece) {c : Char} {rest : List Char}
    (htext : piece.text = c :: rest) :
    match opening c with
    | .blank => piece = ⟨[c], .skipped⟩
    | .quote => ∃ body, StringBody body ∧ piece = Piece.ofStringBody body
    | .brace => ∃ comment, CommentBody comment ∧ piece = ⟨'{' :: '-' :: comment, .skipped⟩
    | .digit => (∀ d ∈ piece.text, d.isDigit = true) ∧ piece = Piece.ofDigits piece.text
    | .letter => Word piece.text ∧ piece = Piece.ofWord piece.text
    | .mark =>
      (∃ comment, '\n' ∉ comment ∧ piece = ⟨'-' :: '-' :: comment, .skipped⟩) ∨
        ∃ symbol ∈ Token.symbols, piece = ⟨symbol.1, .token symbol.2⟩ := by
  -- One case for each sort of lexeme; its first character decides `opening c`.
  rcases h with @⟨d, h⟩ | ⟨h⟩ | ⟨h⟩ | ⟨h⟩ | @⟨digits, hne, hdigits, h⟩ |
    @⟨digits, hne, hdigits, h⟩ | @⟨word, kind, h, hreserved⟩ | @⟨word, h, hfree⟩ |
    @⟨spelling, kind, h⟩
  · obtain ⟨rfl, rfl⟩ := List.cons.inj htext
    have hopening : opening d = .blank := if_pos h
    rw [hopening]
  · obtain ⟨rfl, -⟩ := List.cons.inj htext
    exact .inl ⟨_, h, rfl⟩
  · obtain ⟨rfl, -⟩ := List.cons.inj htext
    exact ⟨_, h, rfl⟩
  · obtain ⟨rfl, -⟩ := List.cons.inj htext
    exact ⟨_, h, rfl⟩
  · have hall : ∀ d ∈ digits, d.isDigit = true := fun d hd => isDigit_iff.mpr (hdigits d hd)
    obtain rfl : digits = c :: rest := htext
    rw [opening_of_isDigit (hall c List.mem_cons_self)]
    exact ⟨hall, (ofDigits_of_lt h).symm⟩
  · have hall : ∀ d ∈ digits, d.isDigit = true := fun d hd => isDigit_iff.mpr (hdigits d hd)
    obtain rfl : digits = c :: rest := htext
    rw [opening_of_isDigit (hall c List.mem_cons_self)]
    exact ⟨hall, (ofDigits_of_le h).symm⟩
  · obtain rfl : word = c :: rest := htext
    rw [h.opening]
    exact ⟨h, (ofWord_of_mem hreserved).symm⟩
  · obtain rfl : word = c :: rest := htext
    rw [h.opening]
    exact ⟨h, (ofWord_of_not_mem hfree).symm⟩
  · have hmark := opening_of_symbol _ h
    obtain rfl : spelling = c :: rest := htext
    rw [List.head?_cons, Option.map_some, Option.some.injEq] at hmark
    rw [hmark]
    exact .inr ⟨_, h, rfl⟩

/-! ## Comments and string literals

Their readers search for the closing mark. The searches are stated as equivalences, so that any two
comments or literals at one position are the same. -/

/-- The search `Piece.closeComment` finds a `CommentBody` in front of any `rest`. -/
theorem CommentBody.closeComment_append {comment : List Char} (h : CommentBody comment)
    (rest : List Char) : Piece.closeComment (comment ++ rest) = some (comment, rest) := by
  induction comment with
  | nil =>
    obtain ⟨body, hbody⟩ := h.closed
    simp at hbody
  | cons c comment ih =>
    -- Either the closing mark starts at `c`, and then it is the end, or it comes later.
    by_cases hmark : c = '-' ∧ comment.head? = some '}'
    · obtain ⟨rfl, hhead⟩ := hmark
      obtain ⟨after, rfl⟩ := List.head?_eq_some_iff.mp hhead
      obtain rfl : after = [] := h.first [] after rfl
      rfl
    · -- The mark at the end is not the one that starts here, so it also closes what is left.
      have htail : CommentBody comment := by
        refine ⟨?_, fun before after heq => h.first (c :: before) after (by rw [heq]; rfl)⟩
        obtain ⟨body, hbody⟩ := h.closed
        rcases body with _ | ⟨d, body⟩
        · obtain ⟨rfl, rfl⟩ := List.cons.inj hbody
          exact absurd ⟨rfl, rfl⟩ hmark
        · exact ⟨body, (List.cons.inj hbody).2⟩
      have hopen : ∀ after, c = '-' → comment ++ rest = '}' :: after → False := by
        intro after hc hafter
        obtain ⟨body, rfl⟩ := htail.closed
        refine hmark ⟨hc, ?_⟩
        rcases body with _ | ⟨d, body⟩
        · simp at hafter
        · simpa using (List.cons.inj hafter).1
      rw [List.cons_append, Piece.closeComment.eq_2 _ _ hopen, ih htail]
      rfl

/-- What `Piece.closeComment` finds is a `CommentBody`. -/
theorem commentBody_of_closeComment {text comment rest : List Char}
    (h : Piece.closeComment text = some (comment, rest)) : CommentBody comment := by
  fun_induction Piece.closeComment text generalizing comment rest with
  | case1 after =>
    obtain ⟨rfl, rfl⟩ := Prod.mk.inj (Option.some.inj h)
    refine ⟨⟨[], rfl⟩, fun before after heq => ?_⟩
    rcases before with _ | ⟨b, _ | ⟨b', before⟩⟩ <;> simp_all
  | case2 c text hopen ih =>
    rw [Option.map_eq_some_iff] at h
    obtain ⟨⟨inner, after⟩, hinner, heq⟩ := h
    obtain ⟨rfl, rfl⟩ := Prod.mk.inj heq
    have hbody := ih hinner
    have htext := Piece.closeComment_append hinner
    refine ⟨?_, fun before behind hsplit => ?_⟩
    · obtain ⟨body, rfl⟩ := hbody.closed
      exact ⟨c :: body, rfl⟩
    · rcases before with _ | ⟨b, before⟩
      -- A closing mark at the front would have been found at the front.
      · obtain ⟨rfl, rfl⟩ := List.cons.inj hsplit
        exact absurd htext.symm (hopen _ rfl)
      · exact hbody.first before behind (List.cons.inj hsplit).2
  | case3 => simp at h

theorem StringBody.oneLine {body : List Char} (h : StringBody body) : '\n' ∉ body := by
  induction h with
  | nil => exact List.not_mem_nil
  | plain _ _ hnewline _ ih =>
    rw [List.mem_cons, not_or]
    exact ⟨hnewline.symm, ih⟩
  | escape hnewline _ ih =>
    rw [List.mem_cons, List.mem_cons, not_or, not_or]
    exact ⟨by decide, hnewline.symm, ih⟩

/-- The search `Piece.closeString` finds a `StringBody` in front of its quote and any `rest`. -/
theorem StringBody.closeString_append {body : List Char} (h : StringBody body)
    (rest : List Char) : Piece.closeString (body ++ '"' :: rest) = some (body, rest) := by
  induction h with
  | nil => rfl
  | @plain c body hquote hbackslash hnewline _ ih =>
    rw [List.cons_append, Piece.closeString.eq_6 c _ hquote hnewline
      (fun _ hc => absurd hc hbackslash) (fun _ _ hc => absurd hc hbackslash)
      (fun hc => absurd hc hbackslash), ih]
    rfl
  | @escape c body hnewline _ ih =>
    rw [List.cons_append, List.cons_append, Piece.closeString.eq_4 c _ hnewline, ih]
    rfl

/-- What `Piece.closeString` finds is a `StringBody`. -/
theorem stringBody_of_closeString {text body rest : List Char}
    (h : Piece.closeString text = some (body, rest)) : StringBody body := by
  fun_induction Piece.closeString text generalizing body rest with
  | case1 =>
    obtain ⟨rfl, rfl⟩ := Prod.mk.inj (Option.some.inj h)
    exact .nil
  | case2 => simp at h
  | case3 => simp at h
  | case4 c text hnewline ih =>
    rw [Option.map_eq_some_iff] at h
    obtain ⟨⟨inner, after⟩, hinner, heq⟩ := h
    obtain ⟨rfl, rfl⟩ := Prod.mk.inj heq
    exact .escape hnewline (ih hinner)
  | case5 => simp at h
  | case6 c text hquote hnewline _ hescape hlast ih =>
    -- A backslash takes a character with it or ends the text, and both are cases of their own.
    have hbackslash : c ≠ '\\' := by
      rintro rfl
      rcases text with _ | ⟨d, text⟩
      · exact hlast rfl rfl
      · exact hescape d text rfl rfl
    rw [Option.map_eq_some_iff] at h
    obtain ⟨⟨inner, after⟩, hinner, heq⟩ := h
    obtain ⟨rfl, rfl⟩ := Prod.mk.inj heq
    exact .plain hquote hbackslash hnewline (ih hinner)
  | case7 => simp at h

/-! ## First characters -/

theorem Lexeme.text_ne_nil {piece : Piece} (h : Lexeme piece) : piece.text ≠ [] := by
  rcases h with _ | _ | _ | _ | ⟨hne, _, _⟩ | ⟨hne, _, _⟩ | ⟨h, _⟩ | ⟨h, _⟩ | h
  case number => exact hne
  case numberOutOfRange => exact hne
  case keyword => rcases h <;> simp
  case name => rcases h <;> simp
  case symbol =>
    rintro rfl
    simpa using opening_of_symbol _ h
  all_goals simp

theorem Lexeme.uncons {piece : Piece} (h : Lexeme piece) {c : Char} {text : List Char}
    (hstart : piece.text <+: c :: text) : ∃ rest, piece.text = c :: rest ∧ rest <+: text := by
  rcases htext : piece.text with _ | ⟨d, rest⟩
  · exact absurd htext h.text_ne_nil
  · rw [htext, List.cons_prefix_cons] at hstart
    exact ⟨rest, by rw [hstart.1], hstart.2⟩

/-- The only lexeme behind an opened block comment is the comment that `Piece.closeComment`
finds. -/
theorem Lexeme.closeComment_of_start {piece : Piece} (h : Lexeme piece) {text : List Char}
    (hstart : piece.text <+: '{' :: '-' :: text) :
    ∃ comment rest, piece = ⟨'{' :: '-' :: comment, .skipped⟩ ∧
      Piece.closeComment text = some (comment, rest) := by
  obtain ⟨_, htext, -⟩ := h.uncons hstart
  obtain ⟨comment, hcomment, rfl⟩ := h.opening_cases htext
  obtain ⟨rest, hrest⟩ := hstart
  obtain rfl : comment ++ rest = text := by simpa using hrest
  exact ⟨comment, rest, rfl, hcomment.closeComment_append rest⟩

/-- The only lexeme behind a quote is the string literal that `Piece.closeString` finds. -/
theorem Lexeme.closeString_of_start {piece : Piece} (h : Lexeme piece) {text : List Char}
    (hstart : piece.text <+: '"' :: text) :
    ∃ body rest, piece = Piece.ofStringBody body ∧
      Piece.closeString text = some (body, rest) := by
  obtain ⟨_, htext, -⟩ := h.uncons hstart
  obtain ⟨body, hbody, rfl⟩ := h.opening_cases htext
  obtain ⟨rest, hrest⟩ := hstart
  obtain rfl : body ++ '"' :: rest = text := by simpa [Piece.ofStringBody] using hrest
  exact ⟨body, rest, rfl, hbody.closeString_append rest⟩

end Scriptlet.Lexicon
