import Scriptlet.Syntax

/-!
# Functions

A function is a name, parameters and a body. The function table holds at most one function of each
name; a definition replaces the function of its name.

* `FunctionTable.find?` is the view of a table: the function of a name.
* `FunctionTable.define` adds a function; `FunctionTable.find?_define` says what this changes.
-/

namespace Scriptlet

/-- A function of the program, as `Statement.define` makes it. -/
structure Function where
  /-- The name that calls use. -/
  name : String
  /-- The parameters, in order. -/
  parameters : List String
  /-- The statements that a call executes. -/
  body : List Statement

/-- How many arguments a call in an expression must have. -/
def Function.arity (function : Function) : Nat :=
  function.parameters.length

/-- The functions defined so far, the newest first. As `distinct` is part of it, `find?` has
never a choice. -/
structure FunctionTable where
  /-- The functions. -/
  functions : List Function
  /-- No two functions have one name. -/
  distinct : (functions.map Function.name).Nodup

namespace FunctionTable

/-- The table without functions. -/
def empty : FunctionTable := ⟨[], List.nodup_nil⟩

/-- The function of `name`. -/
def find? (table : FunctionTable) (name : String) : Option Function :=
  table.functions.find? fun function => function.name == name

/-- The number of functions. -/
def size (table : FunctionTable) : Nat :=
  table.functions.length

/-- The functions that are not called `name`. -/
def others (table : FunctionTable) (name : String) : List Function :=
  table.functions.filter fun function => function.name != name

/-- Adds `function`, in place of the one of its name if there is one. -/
def define (table : FunctionTable) (function : Function) : FunctionTable where
  functions := function :: table.others function.name
  distinct := by
    rw [List.map_cons, List.nodup_cons]
    constructor
    · simp [others]
    · exact table.distinct.sublist (List.filter_sublist.map _)

theorem name_of_find? {table : FunctionTable} {name : String} {function : Function}
    (h : table.find? name = some function) : function.name = name := by
  simpa using List.find?_some h

/-- After `table.define function` its name has the new function and every other name the old
one. -/
@[simp]
theorem find?_define (table : FunctionTable) (function : Function) (name : String) :
    (table.define function).find? name =
      if function.name = name then some function else table.find? name := by
  by_cases h : function.name = name
  · simp [define, find?, h]
  · simp only [define, find?, others, List.find?_cons, h, List.find?_filter, if_false,
      beq_eq_false_iff_ne.mpr h]
    congr 1
    funext f
    by_cases hf : f.name = name
    · have hne : f.name ≠ function.name := fun e => h (by rw [← e, hf])
      simp [hf, Ne.symm h]
    · simp [hf]

end FunctionTable

end Scriptlet
