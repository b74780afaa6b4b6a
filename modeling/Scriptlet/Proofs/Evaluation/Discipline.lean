import Mathlib.Logic.Relation
import Scriptlet.Proofs.Evaluation.Points

/-!
# Disciplines

What the values and the code of a run are held to. When every way in which a value comes about keeps
to a discipline, then so does everything that a run computes, binds, hands over and calls: the code
comes from the program or from functions that were there before, and the values come from the code,
the input and the random words.

* `Expression.Contains` and `Statement.Contains` say what a tree is made of, and
  `Statement.Mentions` and `Program.Contains` say where an expression and a statement stand.
* `Discipline` is what is asked of values, expressions and statements, and `Discipline.Sound` lists
  the ways in which these come about.
* `Discipline.AllowsMachine` and `Discipline.Allows` say that a machine and a point keep to it.
* `Discipline.Ensures` says that an evaluation on a machine does.
* `Discipline.Sound.allows_history`, `Discipline.Sound.allows_programHistory` and
  `Discipline.Sound.ensures_run` are the results.
-/

namespace Scriptlet

open Evaluation

variable {α β : Type}

/-! ## What trees are made of -/

/-- The expressions that an expression is made of directly. -/
def Expression.operands : Expression → List Expression
  | .literal _ => []
  | .string _ => []
  | .identifier _ _ => []
  | .binary _ left right _ => [left, right]
  | .list items => items
  | .call _ arguments _ => arguments

/-- The statements that a statement is made of directly. Only `define` has any. -/
def Statement.body : Statement → List Statement
  | .define _ _ body _ => body
  | _ => []

/-- The expression `part` is `whole` itself, or an operand of it at any depth. -/
def Expression.Contains : Expression → Expression → Prop :=
  Relation.ReflTransGen fun whole part => part ∈ whole.operands

/-- The statement `part` is `whole` itself, or it stands in its body at any nesting of
definitions. -/
def Statement.Contains : Statement → Statement → Prop :=
  Relation.ReflTransGen fun whole part => part ∈ whole.body

/-- The expression `part` stands in `tree` itself, not in a statement of its body. -/
def Statement.Mentions (tree : Statement) (part : Expression) : Prop :=
  ∃ operand, tree.operand? = some operand ∧ operand.Contains part

/-- The statement `part` stands in `program` at any nesting of definitions. -/
def Program.Contains (program : Program) (part : Statement) : Prop :=
  ∃ tree ∈ program, tree.Contains part

/-! ## Disciplines -/

/-- What is asked of values, expressions and statements. -/
structure Discipline where
  value : Value → Prop
  expression : Expression → Prop
  statement : Statement → Prop

namespace Discipline

/-- All values of `scope` are as `D` asks. -/
def AllowsScope (D : Discipline) (scope : Environment) : Prop :=
  ∀ name value, scope.find? name = some value → D.value value

/-- All values of `machine` and all bodies of its functions are as `D` asks. -/
structure AllowsMachine (D : Discipline) (machine : Machine) : Prop where
  globals : D.AllowsScope machine.globals
  frames : ∀ frame ∈ machine.frames, D.AllowsScope frame
  functions : ∀ name function, machine.functions.find? name = some function →
    ∀ tree ∈ function.body, D.statement tree

/-- The code and the values of a task are as `D` asks. -/
def AllowsTask (D : Discipline) : Task → Prop
  | .expression tree => D.expression tree
  | .statement tree => D.statement tree
  | .call function arguments _ =>
    (∀ tree ∈ function.body, D.statement tree) ∧ ∀ value ∈ arguments, D.value value

/-- The task and the machine of `point` keep to `D`. -/
structure Allows (D : Discipline) (point : Point) : Prop where
  task : D.AllowsTask point.task
  machine : D.AllowsMachine point.machine

/-- The ways in which code and values come about keep to `D`. The first three fields go from
trees to their parts, the others from parts to values. -/
structure Sound (D : Discipline) : Prop where
  operand : ∀ {tree operand}, D.statement tree → tree.operand? = some operand →
    D.expression operand
  body : ∀ {tree inner}, D.statement tree → inner ∈ tree.body → D.statement inner
  operands : ∀ {tree inner}, D.expression tree → inner ∈ tree.operands → D.expression inner
  literal : ∀ {n}, D.expression (.literal n) → D.value (.integer n)
  string : ∀ {text scope}, D.expression (.string text) → D.AllowsScope scope →
    D.value (.string (scope.interpolate text))
  list : ∀ {values}, (∀ value ∈ values, D.value value) → D.value (.list values)
  operator : ∀ {op : BinaryOp} {left right value}, D.value left → D.value right →
    op.apply left right = .ok value → D.value value
  line : ∀ {input text rest}, Input.readLine input = (.ok text, rest) → D.value (.string text)
  draw : ∀ {bound : Int}, 0 ≤ bound → D.value (.integer bound) → ∀ words,
    D.value (.integer (Random.draw bound.toNat words).1)
  nil : D.value .nil

/-- On `machine` the evaluation leaves a machine that `D` allows, and a value that it gives is
`good`. -/
structure Ensures (D : Discipline) (good : α → Prop) (evaluation : Evaluation α)
    (machine : Machine) : Prop where
  after : D.AllowsMachine (evaluation.after machine)
  value : ∀ {value after}, evaluation machine = .ok value after → good value

/-- What is done at `point` ensures a value that keeps to `D`. -/
def Keeps (D : Discipline) (point : Point) : Prop :=
  D.Ensures D.value point.task.perform point.machine

variable {D : Discipline} {machine : Machine}

/-! ## Scopes and machines -/

theorem AllowsScope.define {scope : Environment} (h : D.AllowsScope scope) {value : Value}
    (hvalue : D.value value) (name : String) : D.AllowsScope (scope.define name value) := by
  intro other found hfound
  rw [Environment.find?_define] at hfound
  split at hfound
  · cases hfound
    exact hvalue
  · exact h other found hfound

theorem allowsScope_empty (D : Discipline) : D.AllowsScope .empty :=
  fun _ _ h => by cases h

/-- The scope that `Environment.ofParameters` makes has values of `arguments` only. -/
theorem allowsScope_ofParameters (parameters : List String) {arguments : List Value}
    (h : ∀ value ∈ arguments, D.value value) :
    D.AllowsScope (.ofParameters parameters arguments) := by
  -- The parameters are bound one after the other, beginning with an empty scope.
  have hfold (bindings : List (String × Value)) (scope : Environment)
      (hscope : D.AllowsScope scope) (hbindings : ∀ binding ∈ bindings, D.value binding.2) :
      D.AllowsScope (bindings.foldl (fun env binding => env.define binding.1 binding.2) scope) := by
    induction bindings generalizing scope with
    | nil => exact hscope
    | cons binding bindings ih =>
      rw [List.forall_mem_cons] at hbindings
      exact ih _ (hscope.define hbindings.1 binding.1) hbindings.2
  exact hfold _ _ D.allowsScope_empty fun binding hbinding =>
    h binding.2 (List.of_mem_zip hbinding).2

namespace AllowsMachine

theorem current (h : D.AllowsMachine machine) : D.AllowsScope machine.current := by
  unfold Machine.current
  rcases hframes : machine.frames with _ | ⟨frame, frames⟩
  · exact h.globals
  · exact h.frames frame (by rw [hframes]; exact List.mem_cons_self)

theorem bind (h : D.AllowsMachine machine) {value : Value} (hvalue : D.value value)
    (name : String) : D.AllowsMachine (machine.bind name value) := by
  unfold Machine.bind
  split
  · exact ⟨h.globals.define hvalue name, h.frames, h.functions⟩
  · rename_i frame frames hframes
    have hscopes := h.frames
    rw [hframes, List.forall_mem_cons] at hscopes
    exact ⟨h.globals,
      List.forall_mem_cons.mpr ⟨hscopes.1.define hvalue name, hscopes.2⟩, h.functions⟩

theorem push (h : D.AllowsMachine machine) {frame : Environment} (hframe : D.AllowsScope frame) :
    D.AllowsMachine (machine.push frame) :=
  ⟨h.globals, List.forall_mem_cons.mpr ⟨hframe, h.frames⟩, h.functions⟩

theorem pop (h : D.AllowsMachine machine) : D.AllowsMachine machine.pop :=
  ⟨h.globals, fun frame hframe => h.frames frame (List.mem_of_mem_tail hframe), h.functions⟩

theorem record (h : D.AllowsMachine machine) (event : Event) :
    D.AllowsMachine (machine.record event) :=
  ⟨h.globals, h.frames, h.functions⟩

theorem define (h : D.AllowsMachine machine) {function : Function}
    (hbody : ∀ tree ∈ function.body, D.statement tree) :
    D.AllowsMachine { machine with functions := machine.functions.define function } := by
  refine ⟨h.globals, h.frames, fun name found hfound => ?_⟩
  rw [FunctionTable.find?_define] at hfound
  split at hfound
  · cases hfound
    exact hbody
  · exact h.functions name found hfound

end AllowsMachine

/-! ## Evaluations -/

namespace Ensures

variable {good : α → Prop}

theorem of_ok {evaluation : Evaluation α} {value : α} {after : Machine}
    (h : evaluation machine = .ok value after) (hafter : D.AllowsMachine after)
    (hvalue : good value) : D.Ensures good evaluation machine where
  after := by rwa [after_of_ok h]
  value h' := by
    cases h.symm.trans h'
    exact hvalue

theorem of_error {evaluation : Evaluation α} {fault : Fault} {after : Machine}
    (h : evaluation machine = .error fault after) (hafter : D.AllowsMachine after) :
    D.Ensures good evaluation machine where
  after := by rwa [after_of_error h]
  value h' := by cases h.symm.trans h'

theorem of_eq {evaluation evaluation' : Evaluation α} {machine' : Machine}
    (h : D.Ensures good evaluation' machine') (heq : evaluation machine = evaluation' machine') :
    D.Ensures good evaluation machine where
  after := by rw [Evaluation.after, heq]; exact h.after
  value hresult := h.value (heq.symm.trans hresult)

/-- The part `second` of an evaluation starts with what `first` ensures. -/
theorem bind {first : Evaluation α} {second : α → Evaluation β} {good' : β → Prop}
    (hfirst : D.Ensures good first machine)
    (hsecond : ∀ value between, first machine = .ok value between → good value →
      D.AllowsMachine between → D.Ensures good' (second value) between) :
    D.Ensures good' (first >>= second) machine := by
  have hafter := hfirst.after
  rcases h : first machine with ⟨value, between⟩ | ⟨fault, between⟩
  · rw [after_of_ok h] at hafter
    have hrest := hsecond value between h (hfirst.value h) hafter
    exact ⟨by rw [after_bind, h]; exact hrest.after,
      fun hresult => hrest.value (by rwa [bind_of_ok h] at hresult)⟩
  · rw [after_of_error h] at hafter
    exact .of_error (bind_of_error h second) hafter

theorem pure (h : D.AllowsMachine machine) {value : α} (hvalue : good value) :
    D.Ensures good (Pure.pure value : Evaluation α) machine :=
  .of_ok rfl h hvalue

theorem within {evaluation : Evaluation α} (h : D.Ensures good evaluation machine)
    (statement : Statement) : D.Ensures good (Evaluation.within statement evaluation) machine where
  after := by rw [after_within]; exact h.after
  value h' := by
    unfold Evaluation.within at h'
    rcases hresult : evaluation machine with ⟨value, after⟩ | ⟨fault, after⟩ <;>
      rw [hresult] at h' <;> cases h'
    exact h.value hresult

theorem inFrame {evaluation : Evaluation α} {frame : Environment}
    (h : D.Ensures good evaluation (machine.push frame)) :
    D.Ensures good (Evaluation.inFrame frame evaluation) machine where
  after := by rw [after_inFrame]; exact h.after.pop
  value h' := by
    unfold Evaluation.inFrame at h'
    rcases hresult : evaluation (machine.push frame) with ⟨value, after⟩ | ⟨fault, after⟩ <;>
      rw [hresult] at h' <;> cases h'
    exact h.value hresult

end Ensures

theorem ensures_bindName (h : D.AllowsMachine machine) {value : Value} (hvalue : D.value value)
    (name : String) : D.Ensures D.value (bindName name value) machine :=
  .of_ok rfl (h.bind hvalue name) hvalue

theorem ensures_writeValue (h : D.AllowsMachine machine) (value : Value) (line : Nat) :
    D.Ensures (fun _ => True) (writeValue value line) machine := by
  have houtput (output : Sink) : D.AllowsMachine { machine with output := output } :=
    ⟨h.globals, h.frames, h.functions⟩
  rcases hwritten : machine.output.writeLine value with ⟨output, _ | reason⟩
  · exact .of_ok (writeValue_of_taken hwritten line) (houtput output) trivial
  · exact .of_error (writeValue_of_refused hwritten line) (houtput output)

theorem ensures_defineFunction (h : D.AllowsMachine machine) {function : Function}
    (hbody : ∀ tree ∈ function.body, D.statement tree) :
    D.Ensures (fun _ => True) (defineFunction function) machine := by
  have hstored := (h.record (.defining function.name function.arity)).define hbody
  rcases hfound : machine.functions.find? function.name with _ | old
  · exact .of_ok (defineFunction_of_find?_eq_none hfound) hstored trivial
  · exact .of_ok (defineFunction_of_find?_eq_some hfound)
      (hstored.record (.redefined function.name)) trivial

/-! ## Tasks in a row -/

/-- Tasks in a row keep to `D` at their points, if each does when its turn comes. By induction
on `tasks`: a task that keeps to it leaves a machine on which the next one is allowed. -/
theorem allows_points {tasks : List Task} (htasks : ∀ task ∈ tasks, D.AllowsTask task)
    (hmachine : D.AllowsMachine machine)
    (h : ∀ point ∈ Task.points tasks machine, D.Allows point → D.Keeps point) :
    ∀ point ∈ Task.points tasks machine, D.Allows point := by
  induction tasks generalizing machine with
  | nil => exact fun point hpoint => by cases hpoint
  | cons task tasks ih =>
    rw [List.forall_mem_cons] at htasks
    have hfirst : D.Allows ⟨task, machine⟩ := ⟨htasks.1, hmachine⟩
    rw [Task.points, List.forall_mem_cons] at h ⊢
    refine ⟨hfirst, fun point hpoint => ?_⟩
    -- The first task has given a value, on a machine that keeps to the discipline.
    obtain ⟨value, between, hresult, hpoint⟩ := mem_pointsAfter.mp hpoint
    have hbetween := (h.1 hfirst).after
    rw [after_of_ok hresult] at hbetween
    exact ih htasks.2 hbetween (fun point hpoint =>
      h.2 point (mem_pointsAfter.mpr ⟨value, between, hresult, hpoint⟩)) point hpoint

theorem allows_expressionPoints {trees : List Expression}
    (htrees : ∀ tree ∈ trees, D.expression tree) (hmachine : D.AllowsMachine machine)
    (h : ∀ point ∈ Expression.points trees machine, D.Allows point → D.Keeps point) :
    ∀ point ∈ Expression.points trees machine, D.Allows point :=
  allows_points (List.forall_mem_map.mpr htrees) hmachine h

/-- Expressions in a row give values as `D` asks, if all their points keep to it. -/
theorem ensures_evaluateAll {trees : List Expression} (hmachine : D.AllowsMachine machine)
    (h : ∀ point ∈ Expression.points trees machine, D.Keeps point) :
    D.Ensures (fun values => ∀ value ∈ values, D.value value) (Expression.evaluateAll trees)
      machine := by
  induction trees generalizing machine with
  | nil => exact .pure hmachine (List.forall_mem_nil _)
  | cons tree trees ih =>
    rw [evaluateAll_cons]
    rw [Expression.points_cons, List.forall_mem_cons] at h
    -- The other expressions start on the machine that the first one has left.
    refine .bind h.1 fun value between hvalue hgood hbetween => ?_
    refine .bind (ih hbetween fun point hpoint =>
      h.2 point (mem_pointsAfter.mpr ⟨value, between, hvalue, hpoint⟩)) ?_
    exact fun values after _ hvalues hafter =>
      .pure hafter (List.forall_mem_cons.mpr ⟨hgood, hvalues⟩)

/-- Statements in a row give a value as `D` asks, if `last` is one and all their points keep
to it. -/
theorem ensures_execute {trees : Program} {last : Value} (hlast : D.value last)
    (hmachine : D.AllowsMachine machine)
    (h : ∀ point ∈ Program.points trees machine, D.Keeps point) :
    D.Ensures D.value (Program.execute last trees) machine := by
  induction trees generalizing machine last with
  | nil => exact .pure hmachine hlast
  | cons tree trees ih =>
    rw [execute_cons]
    rw [Program.points_cons, List.forall_mem_cons] at h
    exact .bind h.1 fun value between hvalue hgood hbetween => ih hgood hbetween
      fun point hpoint => h.2 point (mem_pointsAfter.mpr ⟨value, between, hvalue, hpoint⟩)

namespace Sound

variable (sound : D.Sound)
include sound

theorem ensures_readLine (h : D.AllowsMachine machine) (line : Nat) :
    D.Ensures (fun text => D.value (.string text)) (readLine line) machine := by
  have hinput (input : List UInt8) : D.AllowsMachine { machine with input := input } :=
    ⟨h.globals, h.frames, h.functions⟩
  rcases hread : Input.readLine machine.input with ⟨error | text, input⟩
  · exact .of_error (readLine_of_error hread line) (hinput input)
  · exact .of_ok (readLine_of_ok hread line) (hinput input) (sound.line hread)

theorem ensures_drawBelow (h : D.AllowsMachine machine) {bound : Value} (hbound : D.value bound)
    (line : Nat) : D.Ensures D.value (drawBelow bound line) machine := by
  rcases nonneg_or_drawBelow_eq_fail bound with ⟨n, hn, rfl⟩ | ⟨cause, hfail⟩
  · exact .of_ok (drawBelow_of_nonneg hn line machine) ⟨h.globals, h.frames, h.functions⟩
      (sound.draw hn hbound machine.words)
  · rw [hfail]
    exact .of_error rfl h

/-! ## From the parts to the point -/

/-- The case `call` of `keeps_expression`. The call itself is a part besides the arguments, on
the machine that these leave. -/
theorem keeps_call {name : String} {arguments : List Expression} {line : Nat}
    (hmachine : D.AllowsMachine machine) (htree : D.expression (.call name arguments line))
    (h : ∀ part ∈ Point.parts ⟨.expression (.call name arguments line), machine⟩,
      D.Allows part → D.Keeps part) :
    (∀ part ∈ Point.parts ⟨.expression (.call name arguments line), machine⟩, D.Allows part) ∧
      D.Ensures D.value (Expression.call name arguments line).evaluate machine := by
  rcases hfound : machine.functions.find? name with _ | function
  · rw [Point.parts_call_of_find?_eq_none hfound]
    exact ⟨List.forall_mem_nil _, .of_error (evaluate_call_of_find?_eq_none hfound _ _) hmachine⟩
  by_cases hlength : arguments.length = function.arity
  · rw [Point.parts_call_of_length_eq hfound hlength, List.forall_mem_append] at h ⊢
    have harguments := allows_expressionPoints (fun _ => sound.operands htree) hmachine h.1
    have hvalues := ensures_evaluateAll hmachine fun point hpoint =>
      h.1 point hpoint (harguments point hpoint)
    -- The function was in the table, and its arguments are values of expressions as asked.
    have hcall (values : List Value) (between : Machine)
        (hresult : Expression.evaluateAll arguments machine = .ok values between) :
        D.Allows ⟨.call function values line, between⟩ := by
      have hbetween := hvalues.after
      rw [after_of_ok hresult] at hbetween
      exact ⟨⟨hmachine.functions name function hfound, hvalues.value hresult⟩, hbetween⟩
    constructor
    · refine ⟨harguments, fun point hpoint => ?_⟩
      obtain ⟨values, between, hresult, hpoint⟩ := mem_pointsAfter.mp hpoint
      rw [List.mem_singleton.mp hpoint]
      exact hcall values between hresult
    · have hattempt := Ensures.bind hvalues fun values between hresult _ _ =>
        h.2 _ (mem_pointsAfter.mpr ⟨values, between, hresult, List.mem_singleton_self _⟩)
          (hcall values between hresult)
      exact hattempt.of_eq (evaluate_call_of_length_eq hfound hlength line)
  · rw [Point.parts_call_of_length_ne hfound hlength]
    exact ⟨List.forall_mem_nil _, .of_error (evaluate_call_of_length_ne hfound hlength _) hmachine⟩

/-- If the parts of an expression keep to `D` where they are allowed, then they are allowed,
and the value of the expression is as `D` asks. -/
theorem keeps_expression {tree : Expression} (hmachine : D.AllowsMachine machine)
    (htree : D.expression tree)
    (h : ∀ part ∈ Point.parts ⟨.expression tree, machine⟩, D.Allows part → D.Keeps part) :
    (∀ part ∈ Point.parts ⟨.expression tree, machine⟩, D.Allows part) ∧
      D.Ensures D.value tree.evaluate machine := by
  have hoperands (operands : List Expression) (hsame : operands = tree.operands)
      (h : ∀ point ∈ Expression.points operands machine, D.Allows point → D.Keeps point) :
      ∀ point ∈ Expression.points operands machine, D.Allows point :=
    allows_expressionPoints (fun _ hinner => sound.operands htree (hsame ▸ hinner)) hmachine h
  rcases tree with n | text | ⟨name, line⟩ | ⟨op, left, right, line⟩ | items |
    ⟨name, arguments, line⟩
  · exact ⟨List.forall_mem_nil _, .of_ok rfl hmachine (sound.literal htree)⟩
  · exact ⟨List.forall_mem_nil _, .of_ok rfl hmachine (sound.string htree hmachine.current)⟩
  · refine ⟨List.forall_mem_nil _, ?_⟩
    rcases hfound : machine.current.find? name with _ | value
    · exact .of_error (evaluate_identifier_of_find?_eq_none hfound line) hmachine
    · exact .of_ok (evaluate_identifier_of_find?_eq_some hfound line) hmachine
        (hmachine.current name value hfound)
  · have hparts := hoperands [left, right] rfl h
    refine ⟨hparts, ?_⟩
    have hkeeps (point : Point) (hpoint : point ∈ Expression.points [left, right] machine) :
        D.Keeps point := h point hpoint (hparts point hpoint)
    rw [Expression.points_cons, List.forall_mem_cons] at hkeeps
    rw [evaluate_binary]
    -- The right operand is only evaluated when the left one has a value.
    refine .bind hkeeps.1 fun a between ha hleft hbetween => ?_
    refine .bind (hkeeps.2 ⟨.expression right, between⟩
      (mem_pointsAfter.mpr ⟨a, between, ha, List.mem_cons_self⟩)) ?_
    intro b after _ hright hafter
    rcases happly : op.apply a b with cause | value
    · exact .of_error rfl hafter
    · exact .of_ok rfl hafter (sound.operator hleft hright happly)
  · have hparts := hoperands items rfl h
    refine ⟨hparts, ?_⟩
    rw [evaluate_list]
    exact .bind (ensures_evaluateAll hmachine fun point hpoint => h point hpoint
      (hparts point hpoint)) fun values after _ hvalues hafter =>
        .pure hafter (sound.list hvalues)
  · exact sound.keeps_call hmachine htree h

/-- What a statement does with the value of its `operand?` keeps to `D`. -/
theorem ensures_effect {tree : Statement} (hmachine : D.AllowsMachine machine)
    (htree : D.statement tree)
    (h : ∀ operand, tree.operand? = some operand → D.Ensures D.value operand.evaluate machine) :
    D.Ensures D.value tree.effect machine := by
  rcases tree with ⟨name, e, line⟩ | ⟨e, line⟩ | ⟨name, line⟩ | ⟨name, e, line⟩ |
    ⟨name, parameters, body, line⟩ | ⟨e, line⟩
  · rw [effect_assign]
    exact .bind (h e rfl) fun value between _ hvalue hbetween =>
      ensures_bindName hbetween hvalue name
  · rw [effect_write]
    refine .bind (h e rfl) fun value between _ hvalue hbetween => ?_
    exact .bind (ensures_writeValue hbetween value line) fun _ after _ _ hafter =>
      .pure hafter hvalue
  · rw [effect_read]
    exact .bind (sound.ensures_readLine hmachine line) fun text after _ htext hafter =>
      ensures_bindName hafter htext name
  · rw [effect_random]
    refine .bind (h e rfl) fun bound between _ hbound hbetween => ?_
    exact .bind (sound.ensures_drawBelow hbetween hbound line) fun value after _ hvalue hafter =>
      ensures_bindName hafter hvalue name
  · rw [effect_define]
    exact .bind (ensures_defineFunction hmachine fun inner hinner => sound.body htree hinner)
      fun _ after _ _ hafter => .pure hafter sound.nil
  · rw [effect_evaluate]
    exact h e rfl

/-- If the part of a statement keeps to `D` where it is allowed, then it is allowed, and so is
what the statement gives. -/
theorem keeps_statement {tree : Statement} (hmachine : D.AllowsMachine machine)
    (htree : D.statement tree)
    (h : ∀ part ∈ Point.parts ⟨.statement tree, machine⟩, D.Allows part → D.Keeps part) :
    (∀ part ∈ Point.parts ⟨.statement tree, machine⟩, D.Allows part) ∧
      D.Ensures D.value tree.execute machine := by
  have hstarting : D.AllowsMachine (machine.starting tree) := hmachine.record _
  have hoperand (operand : Expression) (hsome : tree.operand? = some operand) :
      D.Allows ⟨.expression operand, machine.starting tree⟩ :=
    ⟨sound.operand htree hsome, hstarting⟩
  rw [Point.parts_statement] at h ⊢
  constructor
  · rintro part hpart
    obtain ⟨operand, hsome, rfl⟩ := Option.map_eq_some_iff.mp (Option.mem_toList.mp hpart)
    exact hoperand operand hsome
  · have heffect := sound.ensures_effect hstarting htree fun operand hsome =>
      h _ (by rw [hsome]; exact List.mem_cons_self) (hoperand operand hsome)
    exact (heffect.within tree).of_eq (execute_apply tree machine)

/-- If the statements of a body keep to `D` where they are allowed, then they are allowed in
the frame of the call, and so is what the call gives. -/
theorem keeps_attempt {function : Function} {arguments : List Value} {line : Nat}
    (hmachine : D.AllowsMachine machine) (htask : D.AllowsTask (.call function arguments line))
    (h : ∀ part ∈ Point.parts ⟨.call function arguments line, machine⟩,
      D.Allows part → D.Keeps part) :
    (∀ part ∈ Point.parts ⟨.call function arguments line, machine⟩, D.Allows part) ∧
      D.Ensures D.value (function.attempt arguments line) machine := by
  rcases Nat.lt_or_ge machine.depth machine.depthLimit with hroom | hlimit
  · rw [Point.parts_call_of_lt_limit hroom] at h ⊢
    -- The frame has the values of the arguments, and only these.
    have hentering : D.AllowsMachine (machine.entering function arguments) :=
      (hmachine.record _).push (allowsScope_ofParameters function.parameters htask.2)
    have hparts := allows_points (List.forall_mem_map.mpr htask.1) hentering h
    have hbody := Ensures.inFrame (ensures_execute sound.nil hentering fun point hpoint =>
      h point hpoint (hparts point hpoint))
    exact ⟨hparts, hbody.of_eq (attempt_of_lt_limit hroom function arguments line)⟩
  · rw [Point.parts_call_of_limit_le hlimit]
    exact ⟨List.forall_mem_nil _,
      .of_error (attempt_of_limit_le hlimit function arguments line) hmachine⟩

/-- A point that `D` allows has parts that it allows, and it `Keeps` to it. By induction on
the parts of points, with one of the lemmas above for each kind of task. -/
theorem keeps {point : Point} (hpoint : D.Allows point) :
    (∀ part ∈ point.parts, D.Allows part) ∧ D.Keeps point := by
  -- The parts come first: what they ensure is what the point makes use of.
  induction point using Point.parts_induction with
  | h point ih =>
    have hparts (part : Point) (hpart : part ∈ point.parts) (hallows : D.Allows part) :
        D.Keeps part := (ih part hpart hallows).2
    obtain ⟨tree | tree | ⟨function, arguments, line⟩, machine⟩ := point
    · exact sound.keeps_expression hpoint.machine hpoint.task hparts
    · exact sound.keeps_statement hpoint.machine hpoint.task hparts
    · exact sound.keeps_attempt hpoint.machine hpoint.task hparts

/-! ## Runs -/

/-- Everything on the way through a point that `D` allows is allowed. -/
theorem allows_history {point : Point} (hpoint : D.Allows point) :
    ∀ passed ∈ point.history, D.Allows passed :=
  Point.history_induction (fun _ part hallows hpart => (sound.keeps hallows).1 part hpart) hpoint

variable {program : Program} (hprogram : ∀ tree ∈ program, D.statement tree)
  (hmachine : D.AllowsMachine machine)
include hprogram hmachine

theorem allows_programPoints : ∀ point ∈ program.points machine, D.Allows point :=
  allows_points (List.forall_mem_map.mpr hprogram) hmachine fun _ _ hpoint =>
    (sound.keeps hpoint).2

/-- Everything on the way through the run of `program` is allowed, if `D` allows the
statements and the machine. -/
theorem allows_programHistory : ∀ point ∈ program.history machine, D.Allows point := by
  intro point hpoint
  obtain ⟨start, hstart, hpassed⟩ := List.mem_flatMap.mp hpoint
  exact sound.allows_history (sound.allows_programPoints hprogram hmachine start hstart) point
    hpassed

/-- The run of `program` leaves a machine that `D` allows, and a value as it asks. -/
theorem ensures_run : D.Ensures D.value program.run machine := by
  rw [run_eq]
  refine .bind (ensures_execute sound.nil hmachine fun point hpoint =>
    (sound.keeps (sound.allows_programPoints hprogram hmachine point hpoint)).2) ?_
  intro value between _ hvalue hbetween
  have hflush : D.Ensures (fun _ => True) flush between :=
    ⟨by rw [after_flush]; exact hbetween, fun _ => trivial⟩
  exact hflush.bind fun _ after _ _ hafter => .pure hafter hvalue

end Sound

end Discipline

/-- A machine on which nothing has happened has no values and no functions, so every `D`
allows it. -/
theorem allowsMachine_fresh (D : Discipline) (output : Sink) (input : List UInt8)
    (words : Random.WordSource) (depthLimit : Nat) :
    D.AllowsMachine (.fresh output input words depthLimit) where
  globals := D.allowsScope_empty
  frames _ h := by cases h
  functions _ _ h := by cases h

end Scriptlet
