import Scriptlet.Machine

/-!
# Lines of trees

Lines tell where a node stands in a source text and nothing else about it. Here they are mapped: a
tree, a function, a fault or an event with every line replaced by its image under a map on numbers.

* `Expression.mapLines`, `Program.mapLines` and their companions map the lines of one thing.
* `mapLines_id` and `mapLines_mapLines`: lines are mapped functorially.
* `FunctionTable.find?_mapLines`: a table is mapped function by function.
* `Program.SameShape` says that two programs differ in their lines only.
-/

namespace Scriptlet

variable (f g : Nat → Nat)

mutual

/-- An expression with every line replaced by its image under `f`. -/
def Expression.mapLines : Expression → Expression
  | .literal value => .literal value
  | .string text => .string text
  | .identifier name line => .identifier name (f line)
  | .binary op left right line => .binary op left.mapLines right.mapLines (f line)
  | .list items => .list (mapLinesAll items)
  | .call name arguments line => .call name (mapLinesAll arguments) (f line)

/-- Expressions with their lines mapped, each by `Expression.mapLines`. -/
def Expression.mapLinesAll : List Expression → List Expression
  | [] => []
  | e :: es => e.mapLines :: mapLinesAll es

end

mutual

/-- A statement with its lines mapped, those of a function body inside it included. -/
def Statement.mapLines : Statement → Statement
  | .assign name value line => .assign name (value.mapLines f) (f line)
  | .write value line => .write (value.mapLines f) (f line)
  | .read name line => .read name (f line)
  | .random name bound line => .random name (bound.mapLines f) (f line)
  | .define name parameters body line => .define name parameters (Program.mapLines body) (f line)
  | .evaluate value line => .evaluate (value.mapLines f) (f line)

/-- A program with its lines mapped, each statement by `Statement.mapLines`. -/
def Program.mapLines : Program → Program
  | [] => []
  | statement :: rest => statement.mapLines :: Program.mapLines rest

end

/-- A function with the lines of its `body` mapped. -/
def Function.mapLines (function : Function) : Function :=
  { function with body := Program.mapLines f function.body }

/-- A function table with the lines of all bodies mapped. Names stay, so they stay `distinct`. -/
def FunctionTable.mapLines (table : FunctionTable) : FunctionTable where
  functions := table.functions.map (Function.mapLines f)
  distinct := by
    have hnames : (table.functions.map (Function.mapLines f)).map Function.name =
        table.functions.map Function.name := by
      rw [List.map_map]
      rfl
    rw [hnames]
    exact table.distinct

/-- A fault with its line mapped by `f`. -/
def Fault.mapLine (fault : Fault) : Fault :=
  { fault with line := f fault.line }

/-- An event with its line mapped, if it has one. Only `executing` has one. -/
def Event.mapLine : Event → Event
  | .executing line depth statement => .executing (f line) depth statement
  | .defining function arity => .defining function arity
  | .redefined function => .redefined function
  | .calling function depth => .calling function depth

/-- A machine with the lines of its `functions` and of its `log` mapped. -/
def Machine.mapLines (machine : Machine) : Machine :=
  { machine with
    functions := machine.functions.mapLines f
    log := machine.log.map (Event.mapLine f) }

/-! ## Trees -/

mutual

@[simp]
theorem Expression.mapLines_id : ∀ e : Expression, e.mapLines id = e
  | .literal _ => rfl
  | .string _ => rfl
  | .identifier _ _ => rfl
  | .binary op left right line => by
    rw [Expression.mapLines, Expression.mapLines_id left, Expression.mapLines_id right, id]
  | .list items => by rw [Expression.mapLines, Expression.mapLinesAll_id items]
  | .call name arguments line => by
    rw [Expression.mapLines, Expression.mapLinesAll_id arguments, id]

@[simp]
theorem Expression.mapLinesAll_id : ∀ es : List Expression, Expression.mapLinesAll id es = es
  | [] => rfl
  | e :: es => by
    rw [Expression.mapLinesAll, Expression.mapLines_id e, Expression.mapLinesAll_id es]

end

mutual

@[simp]
theorem Expression.mapLines_mapLines :
    ∀ e : Expression, (e.mapLines f).mapLines g = e.mapLines (g ∘ f)
  | .literal _ => rfl
  | .string _ => rfl
  | .identifier _ _ => rfl
  | .binary op left right line => by
    simp only [Expression.mapLines, Expression.mapLines_mapLines left,
      Expression.mapLines_mapLines right, Function.comp_apply]
  | .list items => by
    simp only [Expression.mapLines, Expression.mapLinesAll_mapLinesAll items]
  | .call name arguments line => by
    simp only [Expression.mapLines, Expression.mapLinesAll_mapLinesAll arguments,
      Function.comp_apply]

@[simp]
theorem Expression.mapLinesAll_mapLinesAll : ∀ es : List Expression,
    Expression.mapLinesAll g (Expression.mapLinesAll f es) = Expression.mapLinesAll (g ∘ f) es
  | [] => rfl
  | e :: es => by
    simp only [Expression.mapLinesAll, Expression.mapLines_mapLines e,
      Expression.mapLinesAll_mapLinesAll es]

end

@[simp]
theorem Expression.length_mapLinesAll (es : List Expression) :
    (Expression.mapLinesAll f es).length = es.length := by
  induction es with
  | nil => rfl
  | cons e es ih => simp [Expression.mapLinesAll, ih]

mutual

@[simp]
theorem Statement.mapLines_id : ∀ s : Statement, s.mapLines id = s
  | .assign name value line => by rw [Statement.mapLines, Expression.mapLines_id, id]
  | .write value line => by rw [Statement.mapLines, Expression.mapLines_id, id]
  | .read name line => rfl
  | .random name bound line => by rw [Statement.mapLines, Expression.mapLines_id, id]
  | .define name parameters body line => by
    rw [Statement.mapLines, Program.mapLines_id body, id]
  | .evaluate value line => by rw [Statement.mapLines, Expression.mapLines_id, id]

@[simp]
theorem Program.mapLines_id : ∀ program : Program, program.mapLines id = program
  | [] => rfl
  | statement :: rest => by
    rw [Program.mapLines, Statement.mapLines_id statement, Program.mapLines_id rest]

end

mutual

@[simp]
theorem Statement.mapLines_mapLines :
    ∀ s : Statement, (s.mapLines f).mapLines g = s.mapLines (g ∘ f)
  | .assign name value line => by
    simp only [Statement.mapLines, Expression.mapLines_mapLines, Function.comp_apply]
  | .write value line => by
    simp only [Statement.mapLines, Expression.mapLines_mapLines, Function.comp_apply]
  | .read name line => rfl
  | .random name bound line => by
    simp only [Statement.mapLines, Expression.mapLines_mapLines, Function.comp_apply]
  | .define name parameters body line => by
    simp only [Statement.mapLines, Program.mapLines_mapLines body, Function.comp_apply]
  | .evaluate value line => by
    simp only [Statement.mapLines, Expression.mapLines_mapLines, Function.comp_apply]

@[simp]
theorem Program.mapLines_mapLines :
    ∀ program : Program, (program.mapLines f).mapLines g = program.mapLines (g ∘ f)
  | [] => rfl
  | statement :: rest => by
    simp only [Program.mapLines, Statement.mapLines_mapLines statement,
      Program.mapLines_mapLines rest]

end

theorem Statement.line_mapLines (s : Statement) : (s.mapLines f).line = f s.line := by
  cases s <;> rfl

/-- A statement is described without its line. -/
@[simp]
theorem Statement.description_mapLines (s : Statement) :
    (s.mapLines f).description = s.description := by
  rcases s with _ | _ | _ | _ | _ | ⟨value, line⟩
  case evaluate => cases value <;> rfl
  all_goals rfl

/-- Two programs differ in their lines only: with every line set to zero they are the same. -/
def Program.SameShape (first second : Program) : Prop :=
  Program.mapLines (fun _ => 0) first = Program.mapLines (fun _ => 0) second

/-! ## Functions, faults and events -/

@[simp]
theorem Function.name_mapLines (function : Function) :
    (function.mapLines f).name = function.name := rfl

@[simp]
theorem Function.arity_mapLines (function : Function) :
    (function.mapLines f).arity = function.arity := rfl

@[simp]
theorem Function.mapLines_id (function : Function) : function.mapLines id = function := by
  rw [Function.mapLines, Program.mapLines_id]

@[simp]
theorem Function.mapLines_mapLines (function : Function) :
    (function.mapLines f).mapLines g = function.mapLines (g ∘ f) := by
  simp only [Function.mapLines, Program.mapLines_mapLines]

/-- The function of `name` in a mapped table is the mapped function of that name. -/
@[simp]
theorem FunctionTable.find?_mapLines (table : FunctionTable) (name : String) :
    (table.mapLines f).find? name = (table.find? name).map (Function.mapLines f) := by
  unfold FunctionTable.find? FunctionTable.mapLines
  rw [List.find?_map]
  rfl

theorem FunctionTable.mapLines_define (table : FunctionTable) (function : Function) :
    (table.define function).mapLines f = (table.mapLines f).define (function.mapLines f) := by
  unfold FunctionTable.mapLines FunctionTable.define FunctionTable.others
  congr 1
  rw [List.map_cons, List.filter_map]
  rfl

@[simp]
theorem FunctionTable.mapLines_id (table : FunctionTable) : table.mapLines id = table := by
  have hid : Function.mapLines id = id := funext Function.mapLines_id
  unfold FunctionTable.mapLines
  simp only [hid, List.map_id]

@[simp]
theorem FunctionTable.mapLines_mapLines (table : FunctionTable) :
    (table.mapLines f).mapLines g = table.mapLines (g ∘ f) := by
  unfold FunctionTable.mapLines
  simp only [List.map_map, Function.comp_def, Function.mapLines_mapLines]

@[simp]
theorem Event.mapLine_id (event : Event) : event.mapLine id = event := by
  cases event <;> rfl

@[simp]
theorem Event.mapLine_mapLine (event : Event) :
    (event.mapLine f).mapLine g = event.mapLine (g ∘ f) := by
  cases event <;> rfl

@[simp]
theorem Machine.mapLines_id (machine : Machine) : machine.mapLines id = machine := by
  have hid : Event.mapLine id = id := funext Event.mapLine_id
  unfold Machine.mapLines
  rw [FunctionTable.mapLines_id, hid, List.map_id]

@[simp]
theorem Machine.mapLines_mapLines (machine : Machine) :
    (machine.mapLines f).mapLines g = machine.mapLines (g ∘ f) := by
  unfold Machine.mapLines
  simp only [FunctionTable.mapLines_mapLines, List.map_map, Function.comp_def,
    Event.mapLine_mapLine]

@[simp]
theorem Fault.mapLine_id (fault : Fault) : fault.mapLine id = fault := rfl

@[simp]
theorem Fault.mapLine_mapLine (fault : Fault) :
    (fault.mapLine f).mapLine g = fault.mapLine (g ∘ f) := rfl

theorem Machine.mapLines_bind (machine : Machine) (name : String) (value : Value) :
    (machine.bind name value).mapLines f = (machine.mapLines f).bind name value := by
  obtain ⟨globals, _ | ⟨frame, frames⟩, _, _, _, _, _, _⟩ := machine <;> rfl

/-- A fault names the same statement whatever `g` makes of the lines of the statement. -/
theorem Fault.within_mapLine (fault : Fault) (statement : Statement) :
    (fault.mapLine f).within (statement.mapLines g) = (fault.within statement).mapLine f := by
  simp only [Fault.within, Fault.mapLine, Statement.description_mapLines]

end Scriptlet
