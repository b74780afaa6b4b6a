import Scriptlet.Proofs.Lexicon
import Scriptlet.Proofs.Token.Lexeme

/-!
# Bracketed texts

A printed tree is a bracketed text: a word, a quoted text, or parts between brackets. Words end
where something else begins, quoted texts end at their closing quote, and brackets are closed, so a
bracketed text can be taken apart in one way only, whatever follows it.

* `Form` is what such a text consists of, and `Form.text` is the text.
* `Form.Proper` says that words hold no delimiters and that quoted texts are closed by their last
  quote.
* `Form.text_append_inj`: a text in front of another one determines its form and where it ends.
* `Form.lines_inj` concludes this for texts that stand on lines of their own.
-/

namespace Scriptlet

open Lexicon

inductive Bracket where
  | round
  | square
  deriving DecidableEq

namespace Bracket

def opening : Bracket → Char
  | .round => '('
  | .square => '['

def closing : Bracket → Char
  | .round => ')'
  | .square => ']'

/-- What `inside` writes between two parts: tuples take a blank, lists a comma and a blank. -/
def separator : Bracket → List Char
  | .round => [' ']
  | .square => [',', ' ']

end Bracket

/-- What a bracketed text consists of: a `word`, a `quoted` text, or `parts` between brackets. -/
inductive Form where
  | word (text : String)
  | quoted (text : String)
  | enclosed (bracket : Bracket) (parts : List Form)

/-- The characters of a `word`: none of the brackets, quotes and separators of the other
forms. -/
def Form.IsPlain (c : Char) : Prop :=
  c ∉ ['"', '(', ')', '[', ']', ',', ' ', '\n']

instance : DecidablePred Form.IsPlain :=
  fun c => inferInstanceAs (Decidable (c ∉ _))

mutual

def Form.text : Form → List Char
  | .word text => text.toList
  | .quoted text => '"' :: (text.toList ++ ['"'])
  | .enclosed bracket parts => bracket.opening :: (inside bracket parts ++ [bracket.closing])

/-- The text of `parts` between the brackets of `enclosed`. -/
def Form.inside (bracket : Bracket) : List Form → List Char
  | [] => []
  | part :: parts => part.text ++ behind bracket parts

/-- The texts of the parts behind the first one, each with `bracket.separator` in front of it. -/
def Form.behind (bracket : Bracket) : List Form → List Char
  | [] => []
  | part :: parts => bracket.separator ++ (part.text ++ behind bracket parts)

end

mutual

/-- Words are nonempty and consist of `IsPlain` characters, and quoted texts are bodies of
string literals, which their last quote closes. -/
def Form.Proper : Form → Prop
  | .word text => text.toList ≠ [] ∧ ∀ c ∈ text.toList, IsPlain c
  | .quoted text => StringBody text.toList
  | .enclosed _ parts => allProper parts

def Form.allProper : List Form → Prop
  | [] => True
  | part :: parts => part.Proper ∧ allProper parts

end

namespace Form

/-- No word goes on into `rest`: it is empty or starts with a character that is not `IsPlain`. -/
def Ends (rest : List Char) : Prop :=
  ∀ c ∈ rest.head?, ¬ IsPlain c

/-- `Begins form c` says which forms have texts that start with `c`. -/
inductive Begins : Form → Char → Prop where
  | word {text : String} {c : Char} (h : IsPlain c) : Begins (.word text) c
  | quoted {text : String} : Begins (.quoted text) '"'
  | enclosed {bracket : Bracket} {parts : List Form} :
      Begins (.enclosed bracket parts) bracket.opening

theorem exists_text_eq_cons {form : Form} (h : form.Proper) :
    ∃ c text, form.text = c :: text ∧ form.Begins c := by
  rcases form with text | text | ⟨bracket, parts⟩
  · obtain ⟨c, tail, htext⟩ := List.exists_cons_of_ne_nil h.1
    exact ⟨c, tail, htext, .word (h.2 c (htext ▸ List.mem_cons_self))⟩
  · exact ⟨_, _, rfl, .quoted⟩
  · exact ⟨_, _, rfl, .enclosed⟩

theorem Begins.ne_closing {form : Form} {c : Char} (h : form.Begins c) (bracket : Bracket) :
    c ≠ bracket.closing := by
  rcases h with h | _ | @⟨bracket', _⟩
  · rintro rfl
    cases bracket <;> exact absurd h (by decide)
  · cases bracket <;> decide
  · cases bracket <;> cases bracket' <;> decide

/-- In front of the parts that follow, or of the closing bracket, a word ends. -/
theorem ends_behind (bracket : Bracket) (parts : List Form) (rest : List Char) :
    Ends (behind bracket parts ++ bracket.closing :: rest) := by
  rcases parts with _ | ⟨part, parts⟩ <;> cases bracket <;>
    · rintro c hc
      cases hc
      decide

/-- `SameKind form form'` holds of two forms of one constructor, with the same bracket if they
are `enclosed`. -/
inductive SameKind : Form → Form → Prop where
  | word (text text' : String) : SameKind (.word text) (.word text')
  | quoted (text text' : String) : SameKind (.quoted text) (.quoted text')
  | enclosed (bracket : Bracket) (parts parts' : List Form) :
      SameKind (.enclosed bracket parts) (.enclosed bracket parts')

theorem Begins.sameKind {form form' : Form} {c : Char} (h : form.Begins c) (h' : form'.Begins c) :
    SameKind form form' := by
  rcases h with hplain | _ | @⟨bracket, parts⟩
  · rcases h' with _ | _ | @⟨bracket, parts⟩
    · exact .word _ _
    · exact absurd hplain (by decide)
    · cases bracket <;> exact absurd hplain (by decide)
  · generalize hc : '"' = c at h'
    rcases h' with hplain | _ | @⟨bracket, parts⟩
    · rw [← hc] at hplain
      exact absurd hplain (by decide)
    · exact .quoted _ _
    · cases bracket <;> exact absurd hc (by decide)
  · generalize hc : bracket.opening = c at h'
    rcases h' with hplain | _ | @⟨bracket', parts'⟩
    · rw [← hc] at hplain
      cases bracket <;> exact absurd hplain (by decide)
    · cases bracket <;> exact absurd hc (by decide)
    · obtain rfl : bracket = bracket' := by
        revert hc
        cases bracket <;> cases bracket' <;> decide
      exact .enclosed _ _ _

/-- The texts of two proper forms that agree, up to whatever `rest` and `rest'` follow them,
are of the same kind, since their first characters tell the kind. -/
theorem sameKind_of_text_append_eq {form form' : Form} (h : form.Proper) (h' : form'.Proper)
    {rest rest' : List Char} (heq : form.text ++ rest = form'.text ++ rest') :
    SameKind form form' := by
  obtain ⟨c, text, htext, hbegins⟩ := exists_text_eq_cons h
  obtain ⟨c', text', htext', hbegins'⟩ := exists_text_eq_cons h'
  rw [htext, htext'] at heq
  obtain rfl : c = c' := (List.cons.inj heq).1
  exact hbegins.sameKind hbegins'

theorem text_quoted_append (text : String) (rest : List Char) :
    (quoted text).text ++ rest = '"' :: (text.toList ++ '"' :: rest) := by
  rw [Form.text, List.cons_append, List.append_assoc, List.singleton_append]

theorem text_enclosed_append (bracket : Bracket) (parts : List Form) (rest : List Char) :
    (enclosed bracket parts).text ++ rest =
      bracket.opening :: (inside bracket parts ++ bracket.closing :: rest) := by
  rw [Form.text, List.cons_append, List.append_assoc, List.singleton_append]

mutual

/-- `Form.text` determines the form and where it ends: if two proper forms have the same text
up to a `rest` in front of which words end, the forms and the rests are equal. -/
theorem text_append_inj : ∀ {form form' : Form}, form.Proper → form'.Proper →
    ∀ {rest rest' : List Char}, Ends rest → Ends rest' →
    form.text ++ rest = form'.text ++ rest' → form = form' ∧ rest = rest'
  | .word text, form', h, h', rest, rest', hrest, hrest', heq => by
    rcases sameKind_of_text_append_eq h h' heq with ⟨_, text'⟩ | _ | _
    obtain ⟨htext, hrest⟩ := passing_append_inj h.2 h'.2 hrest hrest' heq
    exact ⟨congrArg _ (String.toList_inj.mp htext), hrest⟩
  | .quoted text, form', h, h', rest, rest', _, _, heq => by
    rcases sameKind_of_text_append_eq h h' heq with _ | ⟨_, text'⟩ | _
    rw [text_quoted_append, text_quoted_append] at heq
    -- The closing quote is found at the end of either text.
    have hclosed := StringBody.closeString_append h rest
    rw [(List.cons.inj heq).2, StringBody.closeString_append h' rest'] at hclosed
    obtain ⟨htext, hrest⟩ := Prod.mk.inj (Option.some.inj hclosed)
    exact ⟨congrArg _ (String.toList_inj.mp htext.symm), hrest.symm⟩
  | .enclosed bracket parts, form', h, h', rest, rest', _, _, heq => by
    rcases sameKind_of_text_append_eq h h' heq with _ | _ | ⟨_, _, parts'⟩
    rw [text_enclosed_append, text_enclosed_append] at heq
    obtain ⟨hparts, hrest⟩ := inside_append_inj bracket h h' (List.cons.inj heq).2
    exact ⟨congrArg _ hparts, hrest⟩

/-- The text `inside bracket parts` determines `parts`, up to the closing bracket. -/
theorem inside_append_inj (bracket : Bracket) : ∀ {parts parts' : List Form},
    allProper parts → allProper parts' → ∀ {rest rest' : List Char},
    inside bracket parts ++ bracket.closing :: rest =
      inside bracket parts' ++ bracket.closing :: rest' → parts = parts' ∧ rest = rest'
  | [], [], _, _, _, _, heq => ⟨rfl, (List.cons.inj heq).2⟩
  -- No part begins with a closing bracket, so the numbers of parts are the same.
  | [], part :: parts, _, h', _, _, heq => by
    obtain ⟨c, text, htext, hbegins⟩ := exists_text_eq_cons h'.1
    rw [inside, inside, htext] at heq
    exact absurd (List.cons.inj heq).1.symm (hbegins.ne_closing bracket)
  | part :: parts, [], h, _, _, _, heq => by
    obtain ⟨c, text, htext, hbegins⟩ := exists_text_eq_cons h.1
    rw [inside, inside, htext] at heq
    exact absurd (List.cons.inj heq).1 (hbegins.ne_closing bracket)
  | part :: parts, part' :: parts', h, h', rest, rest', heq => by
    rw [inside, inside, List.append_assoc, List.append_assoc] at heq
    -- The first part ends where its text does, and the others follow behind it.
    obtain ⟨rfl, hmore⟩ := text_append_inj h.1 h'.1 (ends_behind bracket parts rest)
      (ends_behind bracket parts' rest') heq
    obtain ⟨rfl, hrest⟩ := behind_append_inj bracket h.2 h'.2 hmore
    exact ⟨rfl, hrest⟩

/-- The text `behind bracket parts` determines `parts`, up to the closing bracket. -/
theorem behind_append_inj (bracket : Bracket) : ∀ {parts parts' : List Form},
    allProper parts → allProper parts' → ∀ {rest rest' : List Char},
    behind bracket parts ++ bracket.closing :: rest =
      behind bracket parts' ++ bracket.closing :: rest' → parts = parts' ∧ rest = rest'
  | [], [], _, _, _, _, heq => ⟨rfl, (List.cons.inj heq).2⟩
  | [], part :: parts, _, _, _, _, heq => by cases bracket <;> cases heq
  | part :: parts, [], _, _, _, _, heq => by cases bracket <;> cases heq
  | part :: parts, part' :: parts', h, h', rest, rest', heq => by
    simp only [behind, List.append_assoc, List.append_cancel_left_eq] at heq
    obtain ⟨rfl, hmore⟩ := text_append_inj h.1 h'.1 (ends_behind bracket parts rest)
      (ends_behind bracket parts' rest') heq
    obtain ⟨rfl, hrest⟩ := behind_append_inj bracket h.2 h'.2 hmore
    exact ⟨rfl, hrest⟩

end

/-- Proper forms that stand on lines of their own are determined by the whole text. -/
theorem lines_inj {forms forms' : List Form} (h : allProper forms) (h' : allProper forms')
    (heq : forms.flatMap (fun form => form.text ++ ['\n']) =
      forms'.flatMap (fun form => form.text ++ ['\n'])) : forms = forms' := by
  induction forms generalizing forms' with
  | nil =>
    rcases forms' with _ | ⟨form', forms'⟩
    · rfl
    · rw [List.flatMap_cons, List.append_assoc] at heq
      cases List.append_ne_nil_of_right_ne_nil _ (List.cons_ne_nil _ _) heq.symm
  | cons form forms ih =>
    rcases forms' with _ | ⟨form', forms'⟩
    · rw [List.flatMap_cons, List.append_assoc] at heq
      cases List.append_ne_nil_of_right_ne_nil _ (List.cons_ne_nil _ _) heq
    -- A newline ends every word, so the first line is cut off alike on both sides.
    · have hends (rest : List Char) : Ends (['\n'] ++ rest) := by
        rintro c hc
        cases hc
        decide
      rw [List.flatMap_cons, List.flatMap_cons, List.append_assoc, List.append_assoc] at heq
      obtain ⟨rfl, hrest⟩ := text_append_inj h.1 h'.1 (hends _) (hends _) heq
      rw [ih h.2 h'.2 (List.append_cancel_left hrest)]

end Form

end Scriptlet
