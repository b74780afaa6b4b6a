import Mathlib.Data.List.TakeWhile
import Scriptlet.Evaluation
import Scriptlet.Proofs.Arithmetic
import Scriptlet.Proofs.Token.Lexeme

/-!
# Texts without newlines

A text of one line has no newline. Such texts come from the literals of a program, which cannot hold
a newline, and from the input, which is cut at its newlines; what a program builds from them is of
one line again.

* `Text.OneLine` and `Value.OneLine` say that a text, and every string inside a value, has no
  newline.
* `count_newline_toUTF8` counts newlines in the bytes of a text.
* `oneLine_of_readLine`, `Environment.oneLine_interpolate` and `BinaryOp.oneLine_of_apply` go
  through the ways in which strings come about.
* `Value.oneLine_text`: such values are written on one line.
-/

namespace Scriptlet

/-! ## Bytes -/

/-- A byte below 128 is part of the encoding of one character only, the one that has its
number. -/
theorem toNat_eq_of_mem_utf8EncodeChar {byte : UInt8} {c : Char} (hbyte : byte.toNat < 128)
    (h : byte ∈ String.utf8EncodeChar c) : c.toNat = byte.toNat := by
  -- A character that has more bytes than one has none below 128.
  have hhigh {n : Nat} (hn : 128 ≤ n) (hn' : n < 256) (heq : byte = UInt8.ofNat n) : False := by
    have hmod : byte.toNat = n % 256 := congrArg UInt8.toNat heq
    omega
  unfold String.utf8EncodeChar at h
  dsimp only at h
  split at h
  · have hmod : byte.toNat = c.val.toNat % 256 := congrArg UInt8.toNat (List.mem_singleton.mp h)
    show c.val.toNat = byte.toNat
    omega
  · exfalso
    split at h
    · simp only [List.mem_cons, List.not_mem_nil, or_false] at h
      rcases h with h | h <;> exact hhigh (by omega) (by omega) h
    · split at h
      · simp only [List.mem_cons, List.not_mem_nil, or_false] at h
        rcases h with h | h | h <;> exact hhigh (by omega) (by omega) h
      · simp only [List.mem_cons, List.not_mem_nil, or_false] at h
        rcases h with h | h | h | h <;> exact hhigh (by omega) (by omega) h

theorem eq_of_newline_mem_utf8EncodeChar {c : Char}
    (h : Input.newline ∈ String.utf8EncodeChar c) : c = '\n' :=
  Char.toNat_inj.mp (toNat_eq_of_mem_utf8EncodeChar (by decide) h)

theorem toList_toUTF8 (text : String) :
    text.toUTF8.data.toList = text.toList.flatMap String.utf8EncodeChar := by
  rw [String.toUTF8_eq_toByteArray, ← String.utf8Encode_toList, List.utf8Encode,
    List.toList_data_toByteArray]

/-- The bytes of `text` hold as many `Input.newline` bytes as it has newlines. -/
theorem count_newline_toUTF8 (text : String) :
    text.toUTF8.data.toList.count Input.newline = text.toList.count '\n' := by
  rw [toList_toUTF8]
  induction text.toList with
  | nil => rfl
  | cons c text ih =>
    rw [List.flatMap_cons, List.count_append, ih]
    by_cases hc : c = '\n'
    · rw [hc, List.count_cons_self, Nat.add_comm]
      rfl
    · rw [List.count_cons_of_ne hc, Nat.add_eq_right, List.count_eq_zero]
      exact fun h => hc (eq_of_newline_mem_utf8EncodeChar h)

/-- The converse of `Input.decode?`: a text that bytes encode has these bytes. -/
theorem Input.toUTF8_of_decode? {bytes : List UInt8} {text : String}
    (h : Input.decode? bytes = some text) : text.toUTF8.data.toList = bytes := by
  unfold Input.decode? String.fromUTF8? at h
  split at h
  · cases h
    rfl
  · cases h

/-! ## Texts -/

/-- The text has no newline. -/
def Text.OneLine (text : String) : Prop :=
  '\n' ∉ text.toList

instance : DecidablePred Text.OneLine :=
  fun _ => inferInstanceAs (Decidable (_ ∉ _))

namespace Text.OneLine

theorem append {text text' : String} (h : OneLine text) (h' : OneLine text') :
    OneLine (text ++ text') := by
  unfold OneLine at *
  rw [String.toList_append, List.mem_append, not_or]
  exact ⟨h, h'⟩

/-- Texts with `separator` between them are `OneLine` if each is and the separator too. -/
theorem intercalate {separator : String} {texts : List String} (hseparator : OneLine separator)
    (h : ∀ text ∈ texts, OneLine text) : OneLine (String.intercalate separator texts) := by
  induction texts with
  | nil =>
    rw [String.intercalate_nil]
    exact List.not_mem_nil
  | cons text texts ih =>
    rw [List.forall_mem_cons] at h
    rcases texts with _ | ⟨text', texts⟩
    · rw [String.intercalate_singleton]
      exact h.1
    · rw [String.intercalate_cons_cons]
      exact (h.1.append hseparator).append (ih h.2)

end Text.OneLine

open Lexicon Text

theorem notMem_repr {c : Char} (h : ¬ c.isDigit = true) (n : Nat) : c ∉ n.repr.toList := by
  intro hmem
  rw [Nat.toList_repr] at hmem
  exact h (isDigit_iff.mpr (digit_of_mem_toDigits hmem))

theorem oneLine_repr (n : Nat) : OneLine n.repr :=
  notMem_repr (by decide) n

theorem oneLine_toString (n : Int) : OneLine (toString n) := by
  rcases n with n | n
  · exact oneLine_repr n
  · show OneLine ("-" ++ n.succ.repr)
    have hsign : OneLine "-" := by decide
    exact hsign.append (oneLine_repr _)

/-- What `Input.readLine` gives is `OneLine`, as it stops at the first newline byte. -/
theorem oneLine_of_readLine {input rest : List UInt8} {text : String}
    (h : Input.readLine input = (.ok text, rest)) : OneLine text := by
  have hsplit : Input.newline ∉ (Input.splitLine input).1 := by
    have htake : (Input.splitLine input).1 = input.takeWhile (· != Input.newline) := by
      unfold Input.splitLine
      split <;> rfl
    rw [htake]
    exact fun hmem => absurd (List.mem_takeWhile_imp hmem) (by decide)
  -- Without its carriage return, the line has no newline either.
  have hdrop : Input.newline ∉ Input.dropCarriageReturn (Input.splitLine input).1 := by
    unfold Input.dropCarriageReturn
    split
    · exact fun hmem => hsplit (List.dropLast_subset _ hmem)
    · exact hsplit
  unfold Input.readLine at h
  split at h
  · cases h
  · dsimp only at h
    split at h
    · rename_i hdecode
      cases h
      unfold OneLine
      rw [← List.count_eq_zero, ← count_newline_toUTF8, Input.toUTF8_of_decode? hdecode,
        List.count_eq_zero]
      split
      · exact hdrop
      · exact hsplit
    · cases h

/-! ## Values -/

namespace Value

mutual

/-- All strings inside a value, in lists at any depth. -/
def strings : Value → List String
  | .integer _ => []
  | .string text => [text]
  | .list items => stringsAll items
  | .boolean _ => []
  | .nil => []

/-- All strings inside some values, those of each by `strings`. -/
def stringsAll : List Value → List String
  | [] => []
  | v :: vs => v.strings ++ stringsAll vs

end

/-- No string inside `value` has a newline. -/
def OneLine (value : Value) : Prop :=
  ∀ text ∈ value.strings, Text.OneLine text

theorem forall_mem_stringsAll {values : List Value} {P : String → Prop} :
    (∀ text ∈ stringsAll values, P text) ↔ ∀ value ∈ values, ∀ text ∈ value.strings, P text := by
  induction values with
  | nil => simp [stringsAll]
  | cons value values ih =>
    rw [stringsAll, List.forall_mem_append, List.forall_mem_cons, ih]

theorem oneLine_list {values : List Value} (h : ∀ value ∈ values, value.OneLine) :
    (list values).OneLine :=
  forall_mem_stringsAll.mpr h

theorem oneLine_string {text : String} (h : Text.OneLine text) : (string text).OneLine :=
  List.forall_mem_singleton.mpr h

mutual

/-- The text of a value is `OneLine` if all strings inside it are: numbers, brackets and
commas have no newline. -/
theorem oneLine_text : ∀ {value : Value}, value.OneLine → Text.OneLine value.text
  | .integer n, _ => oneLine_toString n
  | .string _, h => List.forall_mem_singleton.mp h
  | .list values, h => by
    have hbrackets : Text.OneLine "[" ∧ Text.OneLine ", " ∧ Text.OneLine "]" := by
      unfold Text.OneLine
      decide
    rw [text]
    exact (hbrackets.1.append (.intercalate hbrackets.2.1
      (oneLine_texts (forall_mem_stringsAll.mp h)))).append hbrackets.2.2
  | .boolean true, _ => by unfold Text.OneLine; decide
  | .boolean false, _ => by unfold Text.OneLine; decide
  | .nil, _ => by unfold Text.OneLine; decide

theorem oneLine_texts : ∀ {values : List Value}, (∀ value ∈ values, value.OneLine) →
    ∀ text ∈ texts values, Text.OneLine text
  | [], _ => List.forall_mem_nil _
  | v :: vs, h => by
    rw [List.forall_mem_cons] at h
    exact List.forall_mem_cons.mpr ⟨oneLine_text h.1, oneLine_texts h.2⟩

end

end Value

namespace Environment

variable {env : Environment} (henv : ∀ name value, env.find? name = some value → value.OneLine)
include henv

/-- What the marker of `name` is replaced by is `OneLine` when all values of `env` are. A name
that is not bound is shown itself, so it has to be `OneLine` too. -/
theorem oneLine_markerText {name : String} (h : OneLine name) : OneLine (env.markerText name) := by
  unfold markerText
  split
  · rename_i value hfound
    exact Value.oneLine_text (henv name value hfound)
  · have hsign : OneLine "#" := by unfold OneLine; decide
    exact hsign.append h

theorem newline_notMem_interpolateChars {text : List Char} (h : '\n' ∉ text) :
    '\n' ∉ env.interpolateChars text := by
  -- The cases are those of the pass over the text.
  fun_induction env.interpolateChars text with
  | case1 => exact h
  | case2 c text name rest hmarker ih =>
    rw [marker?_eq_some hmarker] at h
    simp only [List.mem_cons, List.mem_append, not_or] at h
    have hname : OneLine (String.ofList name) := by
      unfold OneLine
      rw [String.toList_ofList]
      exact h.2.2.1
    rw [List.mem_append, not_or]
    exact ⟨oneLine_markerText henv hname, ih h.2.2.2.2⟩
  | case3 c text hmarker ih =>
    rw [List.mem_cons, not_or] at h ⊢
    exact ⟨h.1, ih h.2⟩

/-- A literal that is `OneLine` stays so when its markers are replaced from `env`. -/
theorem oneLine_interpolate {text : String} (h : OneLine text) :
    OneLine (env.interpolate text) := by
  unfold OneLine interpolate at *
  rw [String.toList_ofList]
  exact newline_notMem_interpolateChars henv h

end Environment

/-- An operator on values that are `OneLine` gives one of this kind. -/
theorem BinaryOp.oneLine_of_apply {op : BinaryOp} {left right value : Value}
    (hleft : left.OneLine) (hright : right.OneLine) (h : op.apply left right = .ok value) :
    value.OneLine := by
  have hyields := op.yields_apply left right
  rw [h] at hyields
  cases hyields with
  | integer _ _ _ | boolean _ _ _ => exact List.forall_mem_nil _
  | joined _ _ =>
    exact Value.oneLine_string ((Value.oneLine_text hleft).append (Value.oneLine_text hright))

end Scriptlet
