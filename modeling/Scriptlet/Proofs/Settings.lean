import Mathlib.Data.List.TakeWhile
import Scriptlet.Proofs.Token.Lexeme
import Scriptlet.Settings

/-!
# Texts of settings

A variable is accepted exactly when its text is an unsigned integer of 64 bits: decimal digits,
perhaps behind a plus sign, with blanks around them or not. What is wrong with any other text is
told by what is left of it without its blanks and by the digits that stand at the front of that.

* `Text.Trimmed` says what is left of a text without the blanks at its ends, and
  `Text.Trimmed.trim_eq` and `Text.trimmed_trim` that this is what `Text.trim` finds.
* `Denotes` is the grammar of accepted texts, and `Chosen` that of variables, which may be unset.
* `Explains` says which texts an error is about, and `Refused` which error a variable is refused
  with.
* `readDigits_eq` decides at once what reading decides digit by digit.
* `ofVariables_accepts_decimals` is the result.
-/

namespace Scriptlet

/-! ## Blanks at the ends -/

namespace Text

/-- The text `core` is what is left of `text` without the blanks at its two ends. -/
structure Trimmed (text core : List Char) : Prop where
  around : ∃ before after, text = before ++ (core ++ after) ∧
    (∀ c ∈ before, isBlank c = true) ∧ ∀ c ∈ after, isBlank c = true
  front : ∀ c ∈ core.head?, ¬ isBlank c = true
  back : ∀ c ∈ core.getLast?, ¬ isBlank c = true

theorem dropWhile_isBlank_append {blanks text : List Char} (h : ∀ c ∈ blanks, isBlank c = true)
    (hfront : ∀ c ∈ text.head?, ¬ isBlank c = true) :
    (blanks ++ text).dropWhile isBlank = text := by
  rw [List.dropWhile_append_of_pos h]
  rcases text with _ | ⟨c, text⟩
  · rfl
  · exact List.dropWhile_cons_of_neg (hfront c rfl)

/-- There is one such `core`, and `trim` finds it. -/
theorem Trimmed.trim_eq {text core : List Char} (h : Trimmed text core) : trim text = core := by
  obtain ⟨before, after, rfl, hbefore, hafter⟩ := h.around
  rw [trim_append_of_all_isBlank (List.all_eq_true.mpr hbefore)]
  rcases core with _ | ⟨c, core⟩
  · rw [List.nil_append, ← List.append_nil after,
      trim_append_of_all_isBlank (List.all_eq_true.mpr hafter), trim_nil]
  · -- The first character that is left keeps everything behind it from being dropped.
    have hdrop : (c :: core ++ after).dropWhile isBlank = c :: core ++ after :=
      List.dropWhile_cons_of_neg (h.front c rfl)
    have hafter' : ∀ d ∈ after.reverse, isBlank d = true := fun d hd =>
      hafter d (List.mem_reverse.mp hd)
    have hback : ∀ d ∈ (c :: core).reverse.head?, ¬ isBlank d = true := by
      rw [List.head?_reverse]
      exact h.back
    rw [trim, hdrop, List.reverse_append, dropWhile_isBlank_append hafter' hback,
      List.reverse_reverse]

theorem not_isBlank_head?_dropWhile (text : List Char) :
    ∀ c ∈ (text.dropWhile isBlank).head?, ¬ isBlank c = true := by
  intro c hc
  have hnot := List.head?_dropWhile_not isBlank text
  rw [hc] at hnot
  rw [hnot]
  exact Bool.false_ne_true

/-- Every text has blanks at its ends, or none, and `trim text` in between. -/
theorem trimmed_trim (text : List Char) : Trimmed text (trim text) := by
  have hfront := not_isBlank_head?_dropWhile text
  have hback := not_isBlank_head?_dropWhile (text.dropWhile isBlank).reverse
  -- What is dropped from the back stands behind what is left.
  have hsplit : text.dropWhile isBlank =
      trim text ++ ((text.dropWhile isBlank).reverse.takeWhile isBlank).reverse := by
    rw [trim, ← List.reverse_append, List.takeWhile_append_dropWhile, List.reverse_reverse]
  refine ⟨⟨text.takeWhile isBlank,
    ((text.dropWhile isBlank).reverse.takeWhile isBlank).reverse, ?_, ?_, ?_⟩, ?_, ?_⟩
  · rw [← hsplit, List.takeWhile_append_dropWhile]
  · exact fun c hc => List.mem_takeWhile_imp hc
  · exact fun c hc => List.mem_takeWhile_imp (List.mem_reverse.mp hc)
  · rw [hsplit] at hfront
    rcases htrim : trim text with _ | ⟨c, core⟩
    · rintro c hc
      cases hc
    · rw [htrim] at hfront
      exact hfront
  · rw [trim, List.getLast?_reverse]
    exact hback

end Text

namespace Settings

open Lexicon Text

/-! ## Accepted texts -/

/-- The text of an unsigned integer of 64 bits: decimal digits, with any number of zeros in
front, perhaps behind one plus sign. -/
inductive Numeral : List Char → Nat → Prop where
  | mk {sign digits : List Char} (hsign : sign = [] ∨ sign = ['+']) (hne : digits ≠ [])
      (hdigits : ∀ c ∈ digits, Digit c) (h : Integer.ofDigits digits < 2 ^ 64) :
      Numeral (sign ++ digits) (Integer.ofDigits digits)

/-- The text of an unsigned integer, a `Numeral`, between blanks. -/
inductive Denotes : List Char → Nat → Prop where
  | mk {before numeral after : List Char} {number : Nat} (hbefore : ∀ c ∈ before, isBlank c = true)
      (hnumeral : Numeral numeral number) (hafter : ∀ c ∈ after, isBlank c = true) :
      Denotes (before ++ (numeral ++ after)) number

/-- What a variable chooses: the number that its text `Denotes`, and nothing when it is not
set. -/
inductive Chosen : Option String → Option Nat → Prop where
  | unset : Chosen none none
  | set {text : String} {number : Nat} (h : Denotes text.toList number) :
      Chosen (some text) (some number)

/-! ## Refused texts -/

/-- The text behind a plus sign, if there is one at the front. -/
def behindSign : List Char → List Char
  | '+' :: text => text
  | text => text

/-- The longest run of digits at the front of `core`, behind a plus sign or not. -/
def digitRun (core : List Char) : List Char :=
  (behindSign core).takeWhile Char.isDigit

/-- Which texts without blanks at their ends an error is about. Digits that make up a number
which is too large decide, whatever stands behind them. -/
def Explains (core : List Char) : UnsignedError → Prop
  | .empty => core = []
  | .tooLarge => 2 ^ 64 ≤ Integer.ofDigits (digitRun core)
  | .invalidDigit => core ≠ [] ∧ Integer.ofDigits (digitRun core) < 2 ^ 64

/-- The error that a variable called `name` is refused with when it is set to a text that
denotes no number. It has the name and all of the text, and its cause is the one that
`Explains` what is left of the text without the blanks at its ends. -/
structure Refused (name : String) (held : Option String) (error : SettingsError) : Prop where
  names : error.name = name
  quotes : held = some error.text
  unreadable : ∀ number, ¬ Denotes error.text.toList number
  explained : ∃ core, Trimmed error.text.toList core ∧
    ∀ cause : UnsignedError, error.cause = cause ↔ Explains core cause
  message : error.message = name ++ " must be an unsigned integer, got '" ++ error.text ++ "': " ++
    error.cause.text

/-! ## Digits -/

theorem le_ofDigitChars (number : Nat) (digits : List Char) :
    number ≤ Nat.ofDigitChars 10 digits number := by
  rw [Nat.ofDigitChars_eq_ofDigitChars_zero]
  have hpower : 0 < 10 ^ digits.length := Nat.pow_pos (by decide)
  exact Nat.le_add_right_of_le (Nat.le_mul_of_pos_left number hpower)

/-- What `readDigits` decides digit by digit, decided at once. If the digits up to the first
other character make up a number that is too large, then this is the error. If there is
another character, it is invalid. By induction on `text`, with `le_ofDigitChars` for a number
that is too large already. -/
theorem readDigits_eq {number : Nat} (h : number < 2 ^ 64) (text : List Char) :
    readDigits number text =
      if 2 ^ 64 ≤ Nat.ofDigitChars 10 (text.takeWhile Char.isDigit) number then .error .tooLarge
      else if text.all Char.isDigit then .ok (Nat.ofDigitChars 10 text number)
      else .error .invalidDigit := by
  have hcount : unsignedCount = 2 ^ 64 := rfl
  -- The number that has been read grows along the text, and the bound on it is kept.
  induction text generalizing number with
  | nil =>
    rw [List.takeWhile_nil, Nat.ofDigitChars_nil, if_neg (Nat.not_le.mpr h),
      List.all_nil, if_pos rfl, readDigits]
  | cons c text ih =>
    by_cases hc : c.isDigit = true
    · rw [readDigits, if_pos hc, List.takeWhile_cons_of_pos hc, Nat.ofDigitChars_cons,
        Nat.ofDigitChars_cons, hcount]
      dsimp only
      by_cases hextended : 10 * number + (c.toNat - '0'.toNat) < 2 ^ 64
      · rw [if_pos hextended, ih hextended, List.all_cons, hc, Bool.true_and]
      · -- The digits that follow do not make the number smaller again.
        rw [if_neg hextended, if_pos ((Nat.not_lt.mp hextended).trans (le_ofDigitChars _ _))]
    · have hother : ¬ (c :: text).all Char.isDigit = true := fun hall =>
        hc (List.all_eq_true.mp hall c List.mem_cons_self)
      rw [readDigits, if_neg hc, List.takeWhile_cons_of_neg hc, Nat.ofDigitChars_nil,
        if_neg (Nat.not_le.mpr h), if_neg hother]

theorem behindSign_eq_self {core : List Char} (h : ∀ rest, core ≠ '+' :: rest) :
    behindSign core = core := by
  unfold behindSign
  split
  · exact absurd rfl (h _)
  · rfl

/-- Reading goes on behind a plus sign, where there must be something. -/
theorem readUnsigned_of_ne_nil {core : List Char} (h : core ≠ []) :
    readUnsigned core =
      if behindSign core = [] then .error .invalidDigit else readDigits 0 (behindSign core) := by
  unfold readUnsigned
  -- The three branches: no text, a plus sign in front, and anything else.
  split
  · exact absurd rfl h
  · rfl
  · rename_i digits hne
    have hdigits : digits ≠ [] := by
      rintro rfl
      exact hne rfl
    exact (if_neg hdigits).symm
  · rename_i hplus
    rw [behindSign_eq_self hplus, if_neg h]

theorem exists_sign_append (core : List Char) :
    ∃ sign, (sign = [] ∨ sign = ['+']) ∧ sign ++ behindSign core = core := by
  unfold behindSign
  split
  · exact ⟨['+'], .inr rfl, rfl⟩
  · exact ⟨[], .inl rfl, rfl⟩

theorem not_isBlank_of_digit {c : Char} (h : Digit c) : ¬ isBlank c = true := by
  intro hblank
  have hrange := toNat_of_isDigit (isDigit_iff.mpr h)
  have := toNat_of_isBlank hblank
  omega

/-- A `Numeral` between blanks is what is left without the blanks. -/
theorem Numeral.trimmed {before core after : List Char} {number : Nat} (h : Numeral core number)
    (hbefore : ∀ c ∈ before, isBlank c = true) (hafter : ∀ c ∈ after, isBlank c = true) :
    Trimmed (before ++ (core ++ after)) core := by
  have hplain : ∀ c ∈ core, ¬ isBlank c = true := by
    obtain ⟨hsign, -, hdigits, -⟩ := h
    intro c hc
    rcases List.mem_append.mp hc with hc | hc
    · rcases hsign with rfl | rfl
      · cases hc
      · rw [List.mem_singleton.mp hc]
        decide
    · exact not_isBlank_of_digit (hdigits c hc)
  exact ⟨⟨before, after, rfl, hbefore, hafter⟩, fun c hc => hplain c (List.mem_of_mem_head? hc),
    fun c hc => hplain c (List.mem_of_mem_getLast? hc)⟩

/-- The digits of a `Numeral` are what is `behindSign`, and they denote its number. -/
theorem Numeral.behindSign_eq {core : List Char} {number : Nat} (h : Numeral core number) :
    behindSign core ≠ [] ∧ (∀ c ∈ behindSign core, c.isDigit = true) ∧
      Integer.ofDigits (behindSign core) = number ∧ number < 2 ^ 64 := by
  rcases h with @⟨sign, digits, hsign, hne, hdigits, hlt⟩
  have hsame : behindSign (sign ++ digits) = digits := by
    rcases hsign with rfl | rfl
    · refine behindSign_eq_self fun rest (heq : digits = _) => ?_
      have hplus : Digit '+' := hdigits '+' (heq ▸ List.mem_cons_self)
      exact absurd hplus (by unfold Digit; decide)
    · rfl
  rw [hsame]
  exact ⟨hne, fun c hc => isDigit_iff.mpr (hdigits c hc), rfl, hlt⟩

/-- A `Numeral` is read as the number that it stands for. -/
theorem Numeral.readUnsigned_eq {core : List Char} {number : Nat} (h : Numeral core number) :
    readUnsigned core = .ok number := by
  obtain ⟨hne, hdigits, hnumber, hlt⟩ := h.behindSign_eq
  have hcore : core ≠ [] := by
    rintro rfl
    exact hne rfl
  rw [readUnsigned_of_ne_nil hcore, if_neg hne, readDigits_eq (by decide),
    List.takeWhile_eq_self_iff.mpr hdigits]
  subst hnumber
  exact (if_neg (Nat.not_le.mpr hlt)).trans (if_pos (List.all_eq_true.mpr hdigits))

/-- What `readUnsigned` reads as a number is a `Numeral` of it. -/
theorem numeral_of_readUnsigned {core : List Char} {number : Nat}
    (h : readUnsigned core = .ok number) : Numeral core number := by
  rcases eq_or_ne core [] with rfl | hcore
  · cases h
  · rw [readUnsigned_of_ne_nil hcore] at h
    split_ifs at h with hne
    rw [readDigits_eq (by decide)] at h
    split_ifs at h with hlarge hall
    have hdigits := List.all_eq_true.mp hall
    rw [List.takeWhile_eq_self_iff.mpr hdigits, Nat.not_le] at hlarge
    cases h
    have hgrammar : ∀ c ∈ behindSign core, Digit c := fun c hc => isDigit_iff.mp (hdigits c hc)
    obtain ⟨sign, hsign, happend⟩ := exists_sign_append core
    have hnumeral : Numeral (sign ++ behindSign core) _ := .mk hsign hne hgrammar hlarge
    rwa [happend] at hnumeral

/-- The error that `readUnsigned` ends in `Explains` the text. -/
theorem explains_of_readUnsigned {core : List Char} {error : UnsignedError}
    (h : readUnsigned core = .error error) : Explains core error := by
  rcases eq_or_ne core [] with rfl | hcore
  · cases h
    rfl
  · rw [readUnsigned_of_ne_nil hcore] at h
    split_ifs at h with hne
    · -- A sign alone has no digits, so it is not too large.
      cases h
      refine ⟨hcore, ?_⟩
      rw [digitRun, hne]
      decide
    · rw [readDigits_eq (by decide)] at h
      split_ifs at h with hlarge hdigits <;> cases h
      · exact hlarge
      · exact ⟨hcore, Nat.not_le.mp hlarge⟩

/-- No two errors explain one text. So the cause of a `Refused` variable is the only one. -/
theorem Explains.unique {core : List Char} {error error' : UnsignedError}
    (h : Explains core error) (h' : Explains core error') : error = error' := by
  -- An empty text has no digits that could make up a number which is too large.
  have hempty (hcore : core = []) : ¬ 2 ^ 64 ≤ Integer.ofDigits (digitRun core) := by
    subst hcore
    decide
  cases error <;> cases error' <;> try rfl
  case empty.tooLarge => exact absurd h' (hempty h)
  case empty.invalidDigit => exact absurd h h'.1
  case tooLarge.empty => exact absurd h (hempty h')
  case tooLarge.invalidDigit => exact absurd h (Nat.not_le.mpr h'.2)
  case invalidDigit.empty => exact absurd h' h.1
  case invalidDigit.tooLarge => exact absurd h' (Nat.not_le.mpr h.2)

/-! ## Variables -/

/-- A text denotes `number` if `trim` leaves a numeral of it. -/
theorem denotes_iff {text : List Char} {number : Nat} :
    Denotes text number ↔ readUnsigned (trim text) = .ok number := by
  constructor
  · rintro ⟨hbefore, hnumeral, hafter⟩
    rw [(hnumeral.trimmed hbefore hafter).trim_eq]
    exact hnumeral.readUnsigned_eq
  · intro h
    obtain ⟨before, after, htext, hbefore, hafter⟩ := (trimmed_trim text).around
    rw [htext]
    exact .mk hbefore (numeral_of_readUnsigned h) hafter

variable (name : String) {held seed depth : Option String}

/-- A variable is read as what it chooses. -/
theorem readVariable_eq_ok_iff {number : Option Nat} :
    readVariable name held = .ok number ↔ Chosen held number := by
  rcases held with _ | text
  · constructor
    · intro h
      cases h
      exact .unset
    · rintro ⟨⟩
      rfl
  · constructor
    · intro h
      unfold readVariable at h
      dsimp only at h
      split at h <;> cases h
      rename_i hread
      exact .set (denotes_iff.mpr hread)
    · intro h
      rcases h with _ | h
      rw [readVariable, denotes_iff.mp h]

/-- A variable that is not accepted is `Refused` with its name, its text and what is wrong
with the text. -/
theorem readVariable_eq_error_iff {error : SettingsError} :
    readVariable name held = .error error ↔ Refused name held error := by
  constructor
  · intro h
    rcases held with _ | text
    · cases h
    · unfold readVariable at h
      dsimp only at h
      split at h <;> cases h
      rename_i cause hread
      have hexplains := explains_of_readUnsigned hread
      -- A text that denotes a number would have been read, and only one cause explains the
      -- text.
      refine ⟨rfl, rfl, fun number hdenotes => ?_, ⟨_, trimmed_trim _, fun cause' => ⟨?_, ?_⟩⟩, rfl⟩
      · rw [denotes_iff.mp hdenotes] at hread
        cases hread
      · rintro rfl
        exact hexplains
      · exact hexplains.unique
  · rintro ⟨rfl, rfl, hunreadable, ⟨core, htrimmed, hexplained⟩, -⟩
    rw [readVariable, htrimmed.trim_eq]
    rcases hread : readUnsigned core with cause | number
    · -- The error of the reader explains the text, so it is the cause of this one.
      rw [← (hexplained cause).mpr (explains_of_readUnsigned hread)]
    · exact absurd (denotes_iff.mpr (htrimmed.trim_eq ▸ hread)) (hunreadable number)

theorem ofVariables_eq_ok_iff {settings : Settings} :
    ofVariables seed depth = .ok settings ↔
      readVariable seedVariable seed = .ok settings.seed ∧
        ∃ limit, readVariable depthVariable depth = .ok limit ∧
          settings.depthLimit = limit.getD default.depthLimit := by
  unfold ofVariables
  rcases readVariable seedVariable seed with error | number
  · exact ⟨nofun, fun h => nomatch h.1⟩
  · rcases readVariable depthVariable depth with error | limit
    · exact ⟨nofun, fun ⟨_, _, h, _⟩ => nomatch h⟩
    · constructor
      · intro h
        cases h
        exact ⟨rfl, limit, rfl, rfl⟩
      -- Settings are known by their two fields.
      · rintro ⟨hseed, limit', hlimit, hdepth⟩
        cases hlimit
        obtain ⟨settingsSeed, depthLimit⟩ := settings
        cases hseed
        cases hdepth
        rfl

/-- The first variable that cannot be read decides on the error: the depth counts only when
the seed is read. -/
theorem ofVariables_eq_error_iff {error : SettingsError} :
    ofVariables seed depth = .error error ↔
      readVariable seedVariable seed = .error error ∨
        (∃ number, readVariable seedVariable seed = .ok number) ∧
          readVariable depthVariable depth = .error error := by
  unfold ofVariables
  -- The seed is read first, so only behind a readable seed does the depth matter.
  rcases readVariable seedVariable seed with error' | number
  · constructor
    · intro h
      cases h
      exact .inl rfl
    · rintro (h | ⟨⟨number, h⟩, -⟩) <;> cases h
      rfl
  · rcases readVariable depthVariable depth with error' | limit
    · constructor
      · intro h
        cases h
        exact .inr ⟨⟨number, rfl⟩, rfl⟩
      · rintro (h | ⟨-, h⟩) <;> cases h
        rfl
    · exact ⟨nofun, fun h => h.elim nofun fun h => nomatch h.2⟩

/-- **Settings are accepted exactly when both variables are unsigned 64-bit decimals.**
Whatever `seed` and `depth` are, unset or set to any texts, `settings` are accepted if each
text `Denotes` a number, and they then have exactly these numbers, or the default where a
variable is unset. Otherwise they are refused with the `error` of the first variable that is
set to another text, the seed before the depth limit. By `Refused` it has the name and the
whole text of the variable. By `Explains` its cause is that the text is empty if nothing is
left without blanks, that the number is too large if the digits up to the first other
character make up a number of more than 64 bits, and else an invalid digit. -/
theorem ofVariables_accepts_decimals (seed depth : Option String) :
    (∀ settings, ofVariables seed depth = .ok settings ↔
      Chosen seed settings.seed ∧
        ∃ limit, Chosen depth limit ∧ settings.depthLimit = limit.getD default.depthLimit) ∧
    ∀ error, ofVariables seed depth = .error error ↔
      Refused "TPLANG_SEED" seed error ∨
        (∃ number, Chosen seed number) ∧ Refused "TPLANG_MAX_DEPTH" depth error := by
  constructor
  · intro settings
    simp only [ofVariables_eq_ok_iff, readVariable_eq_ok_iff]
  · intro error
    simp only [ofVariables_eq_error_iff, readVariable_eq_ok_iff, readVariable_eq_error_iff]
    rfl

/-- Zeros in front and blanks around a number do not matter. A number that is too large is the
error, also in front of other characters. -/
example : ofVariables (some "\t+007 ") (some "20000000000000000000 calls") =
    .error ⟨"TPLANG_MAX_DEPTH", "20000000000000000000 calls", .tooLarge⟩ := by
  cbv

end Settings

end Scriptlet
