import Scriptlet.Value

/-!
# Environments

An environment binds names to values. There is one for the globals and one for each active call.

* `find?` is the view of an environment: the value that a name is bound to.
* `find?_define`: a definition binds its own name and no other.
-/

namespace Scriptlet

/-- The bindings of one scope. -/
structure Environment where
  /-- The bound names with their values, the newest first. `define` keeps one binding for each
  name. -/
  bindings : List (String × Value)
  deriving DecidableEq

namespace Environment

/-- The environment without bindings. -/
def empty : Environment := ⟨[]⟩

/-- The value that `name` is bound to. -/
def find? (env : Environment) (name : String) : Option Value :=
  env.bindings.lookup name

/-- Binds `name` to `value`; an earlier binding of `name` is dropped. -/
def define (env : Environment) (name : String) (value : Value) : Environment :=
  ⟨(name, value) :: env.bindings.filter fun binding => binding.1 != name⟩

/-- The environment that binds `parameters` to `arguments` in order. Of two parameters with
one name the later one counts; parameters without an argument stay unbound, and further
arguments are dropped. -/
def ofParameters (parameters : List String) (arguments : List Value) : Environment :=
  (parameters.zip arguments).foldl (fun env binding => env.define binding.1 binding.2) empty

theorem lookup_cons_eq_ite (key name : String) (value : Value) (bindings : List (String × Value)) :
    ((key, value) :: bindings).lookup name =
      if name = key then some value else bindings.lookup name := by
  by_cases h : name = key
  · simp [h]
  · have hbeq : (name == key) = false := by simpa using h
    simp [List.lookup_cons, hbeq, h]

/-- Dropping the bindings of `name` leaves it unbound and touches no `other` name. -/
theorem lookup_filter_ne (bindings : List (String × Value)) (name other : String) :
    (bindings.filter fun binding => binding.1 != name).lookup other =
      if other = name then none else bindings.lookup other := by
  induction bindings with
  | nil => simp
  | cons binding bindings ih =>
    obtain ⟨key, value⟩ := binding
    by_cases hkey : key = name
    · rw [List.filter_cons_of_neg (by simp [hkey]), ih, lookup_cons_eq_ite, hkey]
      by_cases hother : other = name <;> simp [hother]
    · rw [List.filter_cons_of_pos (by simp [hkey]), lookup_cons_eq_ite, lookup_cons_eq_ite, ih]
      by_cases hother : other = key
      · simp [hother, hkey]
      · simp [hother]

/-- After `env.define name value` the name has the new value and every `other` name its old
one. -/
@[simp]
theorem find?_define (env : Environment) (name other : String) (value : Value) :
    (env.define name value).find? other = if other = name then some value else env.find? other := by
  unfold find? define
  rw [lookup_cons_eq_ite, lookup_filter_ne]
  by_cases h : other = name <;> simp [h]

end Environment

end Scriptlet
