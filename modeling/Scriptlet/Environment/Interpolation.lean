import Scriptlet.Environment
import Scriptlet.Text.Alphanumeric

/-!
# Interpolation

A marker in a string is a number sign and a name in braces. Interpolation replaces every marker by
the text of the name's value, in one pass from left to right; what it inserts is not looked at
again.

* `marker?` recognises a marker at the front of a text.
* `Environment.interpolate` replaces the markers of a text.
-/

namespace Scriptlet

/-- The name of the marker that a text starts with, and the text after the marker. A name is a
nonempty run of characters that satisfy `Text.isNameChar`, and the closing brace follows it. -/
def marker? : List Char → Option (List Char × List Char)
  | '#' :: '\x7b' :: text =>
    match text.takeWhile Text.isNameChar, text.dropWhile Text.isNameChar with
    | c :: name, '\x7d' :: rest => some (c :: name, rest)
    | _, _ => none
  | _ => none

/-- A text at which `marker?` succeeds is the sign, the name in braces and `rest`, with
nothing in between. -/
theorem marker?_eq_some {text name rest : List Char} (h : marker? text = some (name, rest)) :
    text = '#' :: '\x7b' :: (name ++ '\x7d' :: rest) := by
  unfold marker? at h
  split at h
  · rename_i inner
    split at h
    · rename_i c cs after htake hdrop
      simp only [Option.some.injEq, Prod.mk.injEq] at h
      obtain ⟨rfl, rfl⟩ := h
      rw [← htake, ← hdrop, List.takeWhile_append_dropWhile]
    · simp at h
  · simp at h

/-- The text behind a marker is shorter than the text that starts with it. This is why
`interpolateChars` ends. -/
theorem length_of_marker? {text name rest : List Char} (h : marker? text = some (name, rest)) :
    rest.length < text.length := by
  rw [marker?_eq_some h]
  simp only [List.length_cons, List.length_append]
  omega

namespace Environment

/-- What the marker of `name` is replaced by: the text of its value in `env`, or the name
behind a number sign when it is not bound. -/
def markerText (env : Environment) (name : String) : String :=
  match env.find? name with
  | some value => value.text
  | none => "#" ++ name

/-- The characters of `text` with every marker replaced by its `markerText`. -/
def interpolateChars (env : Environment) (text : List Char) : List Char :=
  match text with
  | [] => []
  | c :: text =>
    match _found : marker? (c :: text) with
    | some (name, rest) =>
      (env.markerText (String.ofList name)).toList ++ env.interpolateChars rest
    | none => c :: env.interpolateChars text
termination_by text.length
decreasing_by
  · exact length_of_marker? _found
  · simp

/-- The string `text` with every marker replaced by its `markerText`. -/
def interpolate (env : Environment) (text : String) : String :=
  String.ofList (env.interpolateChars text.toList)

@[simp]
theorem interpolateChars_nil (env : Environment) : env.interpolateChars [] = [] := by
  rw [interpolateChars]

theorem interpolateChars_of_marker {env : Environment} {text name rest : List Char}
    (h : marker? text = some (name, rest)) :
    env.interpolateChars text =
      (env.markerText (String.ofList name)).toList ++ env.interpolateChars rest := by
  cases text with
  | nil => simp [marker?] at h
  | cons c text =>
    rw [interpolateChars]
    split <;> simp_all

theorem interpolateChars_of_no_marker {env : Environment} {c : Char} {text : List Char}
    (h : marker? (c :: text) = none) :
    env.interpolateChars (c :: text) = c :: env.interpolateChars text := by
  rw [interpolateChars]
  split <;> simp_all

end Environment

end Scriptlet
