/-!
# Blank characters

The characters with the Unicode property `White_Space`. Blanks separate tokens and are cut from the
two ends of a setting's text.

* `isBlank` decides the property.
* `trim` removes the blanks at both ends of a text and none inside it.
-/

namespace Scriptlet.Text

/-- Whether `c` has the Unicode property `White_Space`: the five controls from tab to carriage
return, the space, the next-line control, and the spaces and separators of the higher blocks.
The zero-width space and the byte order mark are not among them. -/
def isBlank (c : Char) : Bool :=
  let code := c.toNat
  (0x9 ≤ code && code ≤ 0xD) || code == 0x20 || code == 0x85 || code == 0xA0 || code == 0x1680 ||
    (0x2000 ≤ code && code ≤ 0x200A) || code == 0x2028 || code == 0x2029 || code == 0x202F ||
    code == 0x205F || code == 0x3000

/-- The text without the `isBlank` characters at its two ends. -/
def trim (text : List Char) : List Char :=
  ((text.dropWhile isBlank).reverse.dropWhile isBlank).reverse

@[simp]
theorem trim_nil : trim [] = [] := rfl

theorem isBlank_newline : isBlank '\n' = true := by decide

/-- Blanks in front of a text do not change what `trim` leaves of it. -/
theorem trim_append_of_all_isBlank {blanks text : List Char} (h : blanks.all isBlank = true) :
    trim (blanks ++ text) = trim text := by
  have hdrop : (blanks ++ text).dropWhile isBlank = text.dropWhile isBlank := by
    induction blanks with
    | nil => rfl
    | cons c cs ih =>
      simp only [List.all_cons, Bool.and_eq_true] at h
      simp [h.1, ih h.2]
  simp [trim, hdrop]

end Scriptlet.Text
