import Mathlib.Data.List.Basic
import Scriptlet.Proofs.Evaluation.Equations
import Scriptlet.Proofs.Interpolation
import Scriptlet.Proofs.Token.Layout

/-!
# Markers of names that end in a mark

A name of the language may end in a question mark or an exclamation mark, and the name of a marker
may not. A marker shows the value of every other name; of a name that ends in a mark it shows the
marker itself, bound or not, while a concatenation shows the value.

* `endsInMark` decides whether a name ends in a mark.
* `Lexicon.IsName.isMarkerName_iff`: the names of the language that do not end in a mark, and no
  other ones, are names of markers.
* `marker_shows_value_iff` is the result.
-/

namespace Scriptlet

open Evaluation Lexicon

/-! ## Names that end in a mark -/

/-- Whether the last character of `name` satisfies `Piece.isWordMark`: it is a question mark
or an exclamation mark. -/
def endsInMark (name : String) : Bool :=
  name.toList.getLast?.any Piece.isWordMark

namespace Lexicon

theorem isNameChar_of_wordStart_or_digit {c : Char} (h : WordStart c ∨ Digit c) :
    Text.isNameChar c = true := by
  have hword := isWordChar_iff.mpr h
  rw [Piece.isWordChar, Bool.or_eq_true] at hword
  rw [Text.isNameChar, Bool.or_eq_true]
  exact hword.imp_left Text.isAlphanumeric_of_isAlphanum

theorem not_isNameChar_of_isWordMark {c : Char} (h : Piece.isWordMark c = true) :
    ¬ Text.isNameChar c = true := by
  rcases isWordMark_iff.mp h with rfl | rfl <;> decide +kernel

/-- A `Word` consists of characters that satisfy `Text.isNameChar`, but that it may have a
mark at its end. -/
theorem Word.exists_front {word : List Char} (h : Word word) :
    ∃ front, front ≠ [] ∧ (∀ c ∈ front, Text.isNameChar c = true) ∧
      (word = front ∨ ∃ mark, Piece.isWordMark mark = true ∧ word = front ++ [mark]) := by
  have hfront {c : Char} {front : List Char} (hstart : WordStart c)
      (hword : ∀ d ∈ front, WordStart d ∨ Digit d) :
      ∀ d ∈ c :: front, Text.isNameChar d = true :=
    List.forall_mem_cons.mpr ⟨isNameChar_of_wordStart_or_digit (.inl hstart),
      fun d hd => isNameChar_of_wordStart_or_digit (hword d hd)⟩
  rcases h with ⟨hstart, hword⟩ | ⟨hstart, hword, hmark⟩
  · exact ⟨_, List.cons_ne_nil _ _, hfront hstart hword, .inl rfl⟩
  · exact ⟨_, List.cons_ne_nil _ _, hfront hstart hword,
      .inr ⟨_, isWordMark_iff.mpr hmark, rfl⟩⟩

/-- For a name of the language `IsMarkerName` fails in one case: when it `endsInMark`. -/
theorem IsName.isMarkerName_iff {name : String} (h : IsName name) :
    IsMarkerName name ↔ endsInMark name = false := by
  obtain ⟨front, hne, hfront, hname | ⟨mark, hmark, hname⟩⟩ := h.1.exists_front
  · -- All characters are characters of markers' names, so the last one is no mark.
    have hlast : endsInMark name = false := by
      rw [endsInMark, hname, List.getLast?_eq_some_getLast hne, Option.any_some, Bool.eq_false_iff]
      exact fun hmark => not_isNameChar_of_isWordMark hmark (hfront _ (List.getLast_mem hne))
    refine ⟨fun _ => hlast, fun _ => ⟨?_, fun c hc => ?_⟩⟩
    · rintro rfl
      exact hne hname.symm
    · simpa [Text.isNameChar] using hfront c (hname ▸ hc)
  · have hlast : endsInMark name = true := by
      rw [endsInMark, hname, List.getLast?_concat, Option.any_some, hmark]
    rw [hlast]
    refine ⟨fun hmarker => ?_, fun h => absurd h (by decide)⟩
    -- A mark is no character of a marker's name, and the name would have it at its end.
    have hchar := hmarker.chars mark (hname ▸ List.mem_concat_self)
    exact absurd (by simpa [Text.isNameChar] using hchar) (not_isNameChar_of_isWordMark hmark)

theorem IsName.notMem {name : String} (h : IsName name) :
    '#' ∉ name.toList ∧ '\x7d' ∉ name.toList := by
  have hchars : ∀ c ∈ name.toList, Text.isNameChar c = true ∨ Piece.isWordMark c = true := by
    obtain ⟨front, -, hfront, hname | ⟨mark, hmark, hname⟩⟩ := h.1.exists_front
    · exact fun c hc => .inl (hfront c (hname ▸ hc))
    · rw [hname, List.forall_mem_append, List.forall_mem_singleton]
      exact ⟨fun c hc => .inl (hfront c hc), .inr hmark⟩
  exact ⟨fun hsign => absurd (hchars _ hsign) (by decide +kernel),
    fun hbrace => absurd (hchars _ hbrace) (by decide +kernel)⟩

end Lexicon

/-! ## Markers of names -/

/-- What looks like the marker of `name` has a marker in it only if it is one itself: `name`
has neither a number sign nor a closing brace with which another one could begin or end. -/
theorem isMarkerName_of_hasMarker_markerOf {name : String} (hsign : '#' ∉ name.toList)
    (hbrace : '\x7d' ∉ name.toList) (h : HasMarker (markerOf name)) : IsMarkerName name := by
  obtain ⟨before, other, after, hother, heq⟩ := h
  have htext : [] ++ '#' :: ('\x7b' :: (name.toList ++ '\x7d' :: [])) =
      before.toList ++ '#' :: ('\x7b' :: (other.toList ++ '\x7d' :: after.toList)) := by
    simpa [markerOf] using congrArg String.toList heq
  -- There is one number sign, and one closing brace behind it.
  have hbehind : '#' ∉ '\x7b' :: (name.toList ++ '\x7d' :: []) := by simpa using hsign
  obtain ⟨-, -, hinner⟩ :=
    (List.append_cons_inj_of_notMem List.not_mem_nil hbehind).mp htext
  obtain ⟨hname, -, -⟩ :=
    (List.append_cons_inj_of_notMem hbrace List.not_mem_nil).mp (List.cons.inj hinner).2
  rwa [String.toList_injective hname]

namespace Environment

variable {env : Environment} {name : String} {value : Value}

/-- The marker of a name that is bound to `value` is replaced by the text of `value`. -/
theorem interpolate_markerOf (h : IsMarkerName name) (hvalue : env.find? name = some value) :
    env.interpolate (markerOf name) = value.text := by
  have hmarker := env.interpolateChars_append_marker [] h []
  rw [List.nil_append, List.append_nil, interpolateChars_nil, List.nil_append, List.append_nil]
    at hmarker
  rw [interpolate, hmarker, String.ofList_toList, markerText, hvalue]

/-- What looks like the marker of a name that `endsInMark` is kept, as `HasMarker` fails for
it. -/
theorem interpolate_markerOf_of_endsInMark (h : IsName name) (hmark : endsInMark name = true) :
    env.interpolate (markerOf name) = markerOf name := by
  have hnone : ¬ HasMarker (markerOf name) := by
    intro hmarker
    have hname := isMarkerName_of_hasMarker_markerOf h.notMem.1 h.notMem.2 hmarker
    rw [h.isMarkerName_iff, hmark] at hname
    cases hname
  rw [interpolate, env.interpolateChars_of_not_hasMarker (by rwa [String.ofList_toList]),
    String.ofList_toList]

end Environment

/-! ## Markers and concatenations -/

/-- The empty string in front of a bound name gives the text of its value, whether the name
ends in a mark or not. It is what the marker of the name is compared with. -/
theorem evaluate_empty_concat_identifier {machine : Machine} {name : String} {value : Value}
    (h : machine.current.find? name = some value) (line line' : Nat) :
    (Expression.binary .concat (.string "") (.identifier name line) line').evaluate machine =
      .ok (.string value.text) machine := by
  have hempty : machine.current.interpolate "" = "" := by
    rw [Environment.interpolate, String.toList_empty, Environment.interpolateChars_nil,
      String.ofList_nil]
  rw [evaluate_binary, bind_of_ok (evaluate_string "" machine),
    bind_of_ok (evaluate_identifier_of_find?_eq_some h line), BinaryOp.apply_concat, hempty]
  show Evaluation.ofCause line' (.ok (Value.string ("" ++ value.text))) machine = _
  rw [String.empty_append]
  rfl

/-- **A marker shows the value of a name exactly when `endsInMark name` is false.** Let `name`
be among the tokens of `source` and bound to `value` in the current scope of `machine`. Then
`joined`, the empty string in front of the name, gives `value.text`. The string literal
`markerOf name` gives the same when `endsInMark name` is false; otherwise `markerOf name`
stays as it is, and the two are the same only when `value.text` is the marker itself. -/
theorem marker_shows_value_iff {source : String} {token : Token} {name : String}
    (htoken : token ∈ (lex source).1) (hkind : token.kind = .identifier name) {machine : Machine}
    {value : Value} (hvalue : machine.current.find? name = some value) (line line' : Nat) :
    let joined := Expression.binary .concat (.string "") (.identifier name line) line'
    let marker := Expression.string (markerOf name)
    joined.evaluate machine = .ok (.string value.text) machine ∧
      marker.evaluate machine =
        .ok (.string (if endsInMark name then markerOf name else value.text)) machine ∧
      (marker.evaluate machine = joined.evaluate machine ↔
        endsInMark name = false ∨ value.text = markerOf name) := by
  intro joined marker
  have hname := isName_of_mem_lex htoken hkind
  have hjoined : joined.evaluate machine = .ok (.string value.text) machine :=
    evaluate_empty_concat_identifier hvalue line line'
  have hmarker : marker.evaluate machine =
      .ok (.string (if endsInMark name then markerOf name else value.text)) machine := by
    -- A name that ends in a mark is no name of a marker, so the text stays as it is.
    rw [evaluate_string]
    split
    · rename_i hmark
      rw [Environment.interpolate_markerOf_of_endsInMark hname hmark]
    · rename_i hmark
      have hplain := hname.isMarkerName_iff.mpr (Bool.eq_false_iff.mpr hmark)
      rw [Environment.interpolate_markerOf hplain hvalue]
  refine ⟨hjoined, hmarker, ?_⟩
  rw [hmarker, hjoined]
  cases endsInMark name <;> simp [eq_comm]

/-- A machine on which a name that ends in a question mark is bound. -/
def Machine.asking : Machine :=
  { Machine.fresh .unlimited [] (.scripted []) 0 with
    globals := .define .empty "empty?" (.integer 1) }

/-- The marker of `empty?` stays on `Machine.asking`, though the name is bound and a
concatenation shows its value. -/
theorem asking_keeps_marker :
    ⟨.identifier "empty?", "empty?", 1⟩ ∈ (lex "empty?").1 ∧
      Machine.asking.current.find? "empty?" = some (.integer 1) ∧
      (Expression.binary .concat (.string "") (.identifier "empty?" 1) 1).evaluate .asking =
        .ok (.string "1") .asking ∧
      (Expression.string (markerOf "empty?")).evaluate .asking =
        .ok (.string "#\x7bempty?\x7d") .asking := by
  have htoken : ⟨.identifier "empty?", "empty?", 1⟩ ∈ (lex "empty?").1 := by decide +kernel
  have hvalue : Machine.asking.current.find? "empty?" = some (.integer 1) := rfl
  obtain ⟨hjoined, hmarker, -⟩ := marker_shows_value_iff htoken rfl hvalue 1 1
  exact ⟨htoken, hvalue, hjoined, hmarker⟩

/-- So there are bound names whose markers do not show their values. -/
theorem bound_name_without_marker :
    ¬ ∀ (source : String) (token : Token) (name : String) (machine : Machine) (value : Value)
      (line line' : Nat), token ∈ (lex source).1 → token.kind = .identifier name →
      machine.current.find? name = some value →
      (Expression.string (markerOf name)).evaluate machine =
        (Expression.binary .concat (.string "") (.identifier name line) line').evaluate
          machine := by
  intro h
  have htoken : ⟨.identifier "empty?", "empty?", 1⟩ ∈ (lex "empty?").1 := by decide +kernel
  have hvalue : Machine.asking.current.find? "empty?" = some (.integer 1) := rfl
  have hsame := h _ _ _ _ _ 1 1 htoken rfl hvalue
  rw [evaluate_empty_concat_identifier hvalue, evaluate_string,
    Environment.interpolate_markerOf_of_endsInMark (isName_of_mem_lex htoken rfl) rfl] at hsame
  obtain ⟨hvalues, -⟩ := EStateM.Result.ok.inj hsame
  exact absurd (Value.string.inj hvalues) (by decide)

end Scriptlet
