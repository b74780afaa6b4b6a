import Mathlib.Data.List.TakeWhile
import Scriptlet.Environment.Interpolation

/-!
# Interpolation, marker by marker

A marker is replaced where it stands, whatever is in front of it and behind it: the parts of a text
on both sides of a marker are interpolated as if each stood alone. Nothing but markers is replaced.
Together these two rules say what the interpolation of every text is.

* `IsMarkerName`, `markerOf` and `HasMarker` say what markers are and which texts have one.
* `marker?_eq_some_iff` says that markers are recognised, and `marker?_append_sign` that none starts
  in a text and ends in a marker behind it.
* `interpolate_marker_by_marker` is the result.
-/

namespace Scriptlet

/-- The names of markers: one or more alphanumeric characters and underscores. This is said
without `Text.isNameChar`. -/
structure IsMarkerName (name : String) : Prop where
  nonempty : name ≠ ""
  chars : ∀ c ∈ name.toList, Text.isAlphanumeric c = true ∨ c = '_'

/-- The marker of `name`, as it stands in a text. -/
def markerOf (name : String) : String :=
  "#\x7b" ++ name ++ "\x7d"

/-- Some marker stands in `text`. -/
def HasMarker (text : String) : Prop :=
  ∃ before name after, IsMarkerName name ∧ text = before ++ markerOf name ++ after

/-! ## Markers in lists of characters -/

/-- A marker with the name `name` is recognised by `marker?` at the front of a text exactly
when it stands there, with a name of `Text.isNameChar` characters. -/
theorem marker?_eq_some_iff {text name rest : List Char} :
    marker? text = some (name, rest) ↔
      name ≠ [] ∧ (∀ c ∈ name, Text.isNameChar c = true) ∧
        text = '#' :: '\x7b' :: (name ++ '\x7d' :: rest) := by
  constructor
  · intro h
    have htext := marker?_eq_some h
    unfold marker? at h
    split at h
    · split at h
      · rename_i first others after htake _
        obtain ⟨rfl, rfl⟩ := Prod.mk.inj (Option.some.inj h)
        refine ⟨List.cons_ne_nil first others, ?_, htext⟩
        rw [← htake]
        exact fun c hc => List.mem_takeWhile_imp hc
      · cases h
    · cases h
  · rintro ⟨hne, hchars, rfl⟩
    obtain ⟨first, others, rfl⟩ := List.exists_cons_of_ne_nil hne
    -- The closing brace is no name character, so the run of these ends where the name does.
    have hbrace : ¬ Text.isNameChar '\x7d' = true := by decide +kernel
    simp only [marker?]
    rw [List.takeWhile_append_of_pos hchars, List.dropWhile_append_of_pos hchars,
      List.takeWhile_cons_of_neg hbrace, List.dropWhile_cons_of_neg hbrace, List.append_nil]
    rfl

/-- A marker with an `IsMarkerName` is recognised in front of any text. -/
theorem IsMarkerName.marker?_append {name : String} (h : IsMarkerName name) (rest : List Char) :
    marker? ((markerOf name).toList ++ rest) = some (name.toList, rest) := by
  refine marker?_eq_some_iff.mpr ⟨?_, fun c hc => ?_, ?_⟩
  · exact fun hnil => h.nonempty (String.toList_eq_nil_iff.mp hnil)
  · simpa [Text.isNameChar] using h.chars c hc
  · simp [markerOf]

/-- A name that `marker?` finds is an `IsMarkerName`. -/
theorem isMarkerName_of_marker? {text name rest : List Char}
    (h : marker? text = some (name, rest)) : IsMarkerName (String.ofList name) := by
  obtain ⟨hne, hchars, -⟩ := marker?_eq_some_iff.mp h
  refine ⟨fun hempty => hne ?_, fun c hc => ?_⟩
  · exact String.ofList_eq_empty_iff.mp hempty
  · rw [String.toList_ofList] at hc
    simpa [Text.isNameChar] using hchars c hc

/-- No marker starts in `c :: text` and goes on behind a number sign that follows it: a name
has no number sign in it. -/
theorem marker?_append_sign {c : Char} {text : List Char} (h : marker? (c :: text) = none)
    (rest : List Char) : marker? (c :: text ++ '#' :: rest) = none := by
  rw [Option.eq_none_iff_forall_ne_some]
  rintro ⟨name, after⟩ hmarker
  obtain ⟨hne, hchars, heq⟩ := marker?_eq_some_iff.mp hmarker
  have hsplit : c :: text ++ '#' :: rest = ('#' :: '\x7b' :: (name ++ ['\x7d'])) ++ after := by
    simpa using heq
  -- A marker that ends in the text would have been recognised there.
  have hwithin (left : List Char) (hleft : c :: text = '#' :: '\x7b' :: (name ++ '\x7d' :: left)) :
      False := by
    rw [marker?_eq_some_iff.mpr ⟨hne, hchars, hleft⟩] at h
    cases h
  rcases List.append_eq_append_iff.mp hsplit with ⟨_ | ⟨d, across⟩, hmark, hrest⟩ |
    ⟨left, hleft, -⟩
  · exact hwithin [] (by simpa using hmark.symm)
  · -- A marker that ends behind the text has the number sign in its name, or as its brace.
    obtain rfl : '#' = d := (List.cons.inj hrest).1
    have hmem : '#' ∈ '\x7b' :: (name ++ ['\x7d']) := by
      rw [(List.cons.inj hmark).2]
      exact List.mem_append_right text List.mem_cons_self
    have hname : '#' ∈ name := by simpa using hmem
    have hsign : ¬ Text.isNameChar '#' = true := by decide +kernel
    exact hsign (hchars '#' hname)
  · exact hwithin left (by simpa using hleft)

namespace Environment

variable (env : Environment)

/-- The marker of `name` behind the text `before` is replaced, and the parts on both sides of
it do not touch. By induction on `before`, along the markers in it. -/
theorem interpolateChars_append_marker (before : List Char) {name : String}
    (h : IsMarkerName name) (after : List Char) :
    env.interpolateChars (before ++ ((markerOf name).toList ++ after)) =
      env.interpolateChars before ++
        ((env.markerText name).toList ++ env.interpolateChars after) := by
  have hsign : ∃ rest, (markerOf name).toList ++ after = '#' :: rest :=
    ⟨'\x7b' :: (name.toList ++ '\x7d' :: after), by simp [markerOf]⟩
  -- The cases are those of the pass over the text in front.
  fun_induction env.interpolateChars before with
  | case1 =>
    rw [List.nil_append, interpolateChars_of_marker (h.marker?_append after),
      String.ofList_toList, List.nil_append]
  | case2 c text found rest hmarker ih =>
    have hmarker' : marker? (c :: text ++ ((markerOf name).toList ++ after)) =
        some (found, rest ++ ((markerOf name).toList ++ after)) := by
      obtain ⟨hne, hchars, htext⟩ := marker?_eq_some_iff.mp hmarker
      exact marker?_eq_some_iff.mpr ⟨hne, hchars, by rw [htext]; simp⟩
    rw [interpolateChars_of_marker hmarker', ih, List.append_assoc]
  | case3 c text hmarker ih =>
    obtain ⟨rest, hrest⟩ := hsign
    have hmarker' := marker?_append_sign hmarker rest
    rw [← hrest, List.cons_append] at hmarker'
    rw [List.cons_append, interpolateChars_of_no_marker hmarker', ih, List.cons_append]

/-- A text that `HasMarker` refutes is kept as it is. -/
theorem interpolateChars_of_not_hasMarker {text : List Char}
    (h : ¬ HasMarker (String.ofList text)) : env.interpolateChars text = text := by
  fun_induction env.interpolateChars text with
  | case1 => rfl
  | case2 c text name rest hmarker _ =>
    have hname := isMarkerName_of_marker? hmarker
    refine absurd ⟨"", String.ofList name, String.ofList rest, hname, ?_⟩ h
    rw [marker?_eq_some hmarker]
    apply String.toList_injective
    simp [markerOf]
  | case3 c text _ ih =>
    rw [ih]
    -- A marker further behind is a marker of the whole text.
    rintro ⟨before, name, after, hname, heq⟩
    refine h ⟨String.singleton c ++ before, name, after, hname, ?_⟩
    apply String.toList_injective
    simpa [markerOf] using congrArg String.toList heq

/-- **Interpolation is a single substitution from left to right.** The marker of an
`IsMarkerName` is replaced by the text of the name's value in `env`, or by the name behind a
number sign when it is not bound. The parts `before` and `after` it are interpolated on their
own, and the text that is put in is not looked at again. A text without a marker, one for
which `HasMarker` fails, is kept as it is. -/
theorem interpolate_marker_by_marker :
    (∀ before name after, IsMarkerName name →
      env.interpolate (before ++ markerOf name ++ after) =
        env.interpolate before ++ (env.find? name).elim ("#" ++ name) Value.text ++
          env.interpolate after) ∧
      ∀ text, ¬ HasMarker text → env.interpolate text = text := by
  constructor
  · intro before name after h
    have hvalue : (env.find? name).elim ("#" ++ name) Value.text = env.markerText name := by
      unfold markerText
      rcases env.find? name with _ | value <;> rfl
    -- On characters the text behind the marker is read from a fresh start, so the three parts
    -- add up.
    apply String.toList_injective
    simp only [interpolate, hvalue, String.toList_append, String.toList_ofList, List.append_assoc]
    exact env.interpolateChars_append_marker before.toList h after.toList
  · intro text h
    rw [interpolate, env.interpolateChars_of_not_hasMarker (by rwa [String.ofList_toList]),
      String.ofList_toList]

/-- A variable whose value looks like its own marker. -/
def selfNamed : Environment :=
  empty.define "x" (.string "#\x7bx\x7d")

/-- The openings of markers in front of `markerOf "x"` do not take it with them, and its value
in `selfNamed` is not replaced again. -/
theorem selfNamed_is_put_in_once :
    IsMarkerName "x" ∧ ¬ HasMarker "#\x7b#\x7by" ∧ ¬ HasMarker "\x7d" ∧
      selfNamed.interpolate ("#\x7b#\x7by" ++ markerOf "x" ++ "\x7d") =
        "#\x7b#\x7by" ++ "#\x7bx\x7d" ++ "\x7d" := by
  have hname : IsMarkerName "x" := by
    refine ⟨by decide, fun c hc => .inl ?_⟩
    obtain rfl : c = 'x' := by simpa using hc
    decide
  -- The text in front has no closing brace, and the one behind no number sign.
  have hfront : ¬ HasMarker "#\x7b#\x7by" := by
    rintro ⟨before, name, after, -, heq⟩
    have hbrace : '\x7d' ∈ "#\x7b#\x7by".toList := by rw [heq]; simp [markerOf]
    exact absurd hbrace (by decide)
  have hbehind : ¬ HasMarker "\x7d" := by
    rintro ⟨before, name, after, -, heq⟩
    have hsign : '#' ∈ "\x7d".toList := by rw [heq]; simp [markerOf]
    exact absurd hsign (by decide)
  obtain ⟨hmarker, hkept⟩ := interpolate_marker_by_marker selfNamed
  refine ⟨hname, hfront, hbehind, ?_⟩
  rw [hmarker _ _ _ hname, hkept _ hfront, hkept _ hbehind]
  rfl

end Environment

end Scriptlet
