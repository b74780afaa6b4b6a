/-!
# Values

What expressions evaluate to, how values are written, and what kind of value each one is.

* `Value.text` is the text that stands for a value; `Value.firstRun` is how the text starts when it
  is handed to a writer.
* `Value.kind` classifies values for diagnostics.
-/

namespace Scriptlet

/-- A value of the language. -/
inductive Value where
  | integer (value : Int)
  | string (text : String)
  | list (items : List Value)
  | boolean (value : Bool)
  /-- The value of a statement that has no other. -/
  | nil

/-- The kinds of values, as `Fault.Cause.operandKinds` names them. -/
inductive Value.Kind where
  | integer
  | string
  | list
  | boolean
  | nil
  deriving DecidableEq

/-- The name of a kind of value. -/
def Value.Kind.name : Value.Kind → String
  | .integer => "integer"
  | .string => "string"
  | .list => "list"
  | .boolean => "boolean"
  | .nil => "nil"

namespace Value

/-- The kind of a value. -/
def kind : Value → Kind
  | .integer _ => .integer
  | .string _ => .string
  | .list _ => .list
  | .boolean _ => .boolean
  | .nil => .nil

mutual

/-- The text of a value: integers in decimal, strings as they are, lists in brackets with
commas between the items. -/
def text : Value → String
  | .integer value => toString value
  | .string text => text
  | .list items => "[" ++ String.intercalate ", " (texts items) ++ "]"
  | .boolean value => if value then "true" else "false"
  | .nil => "nil"

/-- The texts of some values, each by `text`. -/
def texts : List Value → List String
  | [] => []
  | v :: vs => v.text :: texts vs

end

/-- The first run of text that a writer receives for a value. Only a list is handed over in
parts, of which the first is its opening bracket; every other text comes in one run.
`Sink.holdsBack` looks at its length. -/
def firstRun : Value → String
  | .list _ => "["
  | value => value.text

mutual

/-- Whether two values are the same, by recursion on both. `DecidableEq Value` is obtained
from it. -/
def same : Value → Value → Bool
  | .integer a, .integer b => a == b
  | .string a, .string b => a == b
  | .list as, .list bs => sameAll as bs
  | .boolean a, .boolean b => a == b
  | .nil, .nil => true
  | _, _ => false

/-- Whether two lists of values are the same, item by item under `same`. -/
def sameAll : List Value → List Value → Bool
  | [], [] => true
  | a :: as, b :: bs => a.same b && sameAll as bs
  | _, _ => false

end

mutual

theorem eq_of_same : ∀ {a b : Value}, a.same b = true → a = b
  | .integer _, .integer _, h => by simpa [same] using h
  | .string _, .string _, h => by simpa [same] using h
  | .list as, .list bs, h => by
    have hitems : as = bs := eq_of_sameAll (by simpa [same] using h)
    rw [hitems]
  | .boolean _, .boolean _, h => by simpa [same] using h
  | .nil, .nil, _ => rfl

theorem eq_of_sameAll : ∀ {as bs : List Value}, sameAll as bs = true → as = bs
  | [], [], _ => rfl
  | a :: as, b :: bs, h => by
    simp only [sameAll, Bool.and_eq_true] at h
    rw [eq_of_same h.1, eq_of_sameAll h.2]

end

mutual

theorem same_self : ∀ a : Value, a.same a = true
  | .integer _ => by simp [same]
  | .string _ => by simp [same]
  | .list as => by simp [same, sameAll_self as]
  | .boolean _ => by simp [same]
  | .nil => by simp [same]

theorem sameAll_self : ∀ as : List Value, sameAll as as = true
  | [] => by simp [sameAll]
  | a :: as => by simp [sameAll, same_self a, sameAll_self as]

end

/-- The test `same` decides equality. -/
theorem same_iff {a b : Value} : a.same b = true ↔ a = b :=
  ⟨eq_of_same, fun h => h ▸ same_self a⟩

/-- Equality of values is decidable, by `same`. -/
instance : DecidableEq Value := fun _ _ => decidable_of_iff _ same_iff

end Value

end Scriptlet
