import Scriptlet.Proofs.Evaluation.Discipline
import Scriptlet.Proofs.Evaluation.Origins

/-!
# What a fault names

A fault of a run names a statement and a line. The statement is the innermost one that was being
executed when the fault was raised, and the line belongs to the node of this statement, or to the
statement itself, at which something went wrong. Only the flush after the last statement belongs to
no statement.

* `Point.Inside` says that a point belongs to another one and not to a statement of a body that is
  called on the way.
* `Statement.Owns` is what a statement can be about to do itself, and `Statement.Explains` what in
  it a cause at a line is reported at.
* `Point.Blames` says that a statement is to blame for a fault, and `Point.exists_arisesInside`
  finds the statement.
* `Program.Offers` says where the statements of a run come from.
* `Program.exists_blames_of_run` is the result.
-/

namespace Scriptlet

open Evaluation

/-! ## Inside a statement -/

/-- The point `part` is passed on the way through `point`, in the same statement: on the way
there, no statement of a body is begun. -/
def Point.Inside : Point → Point → Prop :=
  Relation.ReflTransGen fun point part =>
    part ∈ point.parts ∧ ∀ tree, part.task ≠ .statement tree

/-- The tasks that are the own ones of `tree`: to execute it, to evaluate the expressions that
it `Mentions`, and to make the calls that it mentions. -/
def Statement.Owns (tree : Statement) : Task → Prop
  | .statement other => other = tree
  | .expression node => tree.Mentions node
  | .call function _ line =>
    ∃ arguments, tree.Mentions (.call function.name arguments line)

theorem Statement.Mentions.operand {tree : Statement} {whole part : Expression}
    (h : tree.Mentions whole) (hpart : part ∈ whole.operands) : tree.Mentions part := by
  obtain ⟨operand, hoperand, hcontains⟩ := h
  exact ⟨operand, hoperand, hcontains.tail hpart⟩

/-- A part of an expression is one of its `operands`, or it is the call that the expression
is. -/
theorem Point.task_of_mem_parts_expression {tree : Expression} {machine : Machine} {part : Point}
    (h : part ∈ Point.parts ⟨.expression tree, machine⟩) :
    (∃ operand ∈ tree.operands, part.task = .expression operand) ∨
      ∃ function arguments values line, tree = .call function.name arguments line ∧
        part.task = .call function values line := by
  have hoperands {trees : List Expression} (hpart : part ∈ Expression.points trees machine) :
      ∃ operand ∈ trees, part.task = .expression operand := by
    obtain ⟨operand, hoperand, htask, -⟩ := mem_expressionPoints hpart
    exact ⟨operand, hoperand, htask⟩
  -- Only an operation, a list and a call have parts; those of a call are its arguments and the
  -- attempt.
  rcases tree with n | text | ⟨name, line⟩ | ⟨op, left, right, line⟩ | items |
    ⟨name, arguments, line⟩
  · cases h
  · cases h
  · cases h
  · exact .inl (hoperands h)
  · exact .inl (hoperands h)
  · rcases hfound : machine.functions.find? name with _ | function
    · rw [parts_call_of_find?_eq_none hfound] at h
      cases h
    by_cases hlength : arguments.length = function.arity
    · rw [parts_call_of_length_eq hfound hlength, List.mem_append] at h
      rcases h with h | h
      · exact .inl (hoperands h)
      · obtain ⟨values, between, -, hcall⟩ := mem_pointsAfter.mp h
        rw [List.mem_singleton.mp hcall, ← FunctionTable.name_of_find? hfound]
        exact .inr ⟨function, arguments, values, line, rfl, rfl⟩
    · rw [parts_call_of_length_ne hfound hlength] at h
      cases h

theorem Point.task_of_mem_parts_call {function : Function} {arguments : List Value} {line : Nat}
    {machine : Machine} {part : Point}
    (h : part ∈ Point.parts ⟨.call function arguments line, machine⟩) :
    ∃ tree, part.task = .statement tree := by
  rcases Nat.lt_or_ge machine.depth machine.depthLimit with hroom | hlimit
  · rw [parts_call_of_lt_limit hroom] at h
    obtain ⟨tree, -, htask, -⟩ := mem_programPoints h
    exact ⟨tree, htask⟩
  · rw [parts_call_of_limit_le hlimit] at h
    cases h

/-- Inside a statement only its own tasks are done. By induction on `Point.Inside`, as
operands are mentioned where the whole is. -/
theorem Point.Inside.owns {tree : Statement} {point culprit : Point}
    (hpoint : point.task = .statement tree) (h : point.Inside culprit) :
    tree.Owns culprit.task := by
  -- The induction follows the way from the statement to the point inside it.
  induction h with
  | refl =>
    rw [hpoint]
    rfl
  | @tail before part _ hstep ih =>
    obtain ⟨hpart, hstatement⟩ := hstep
    obtain ⟨whole | other | ⟨function, arguments, line⟩, machine⟩ := before
    · rcases task_of_mem_parts_expression hpart with ⟨operand, hoperand, htask⟩ |
        ⟨function, arguments, values, line, rfl, htask⟩ <;> rw [htask]
      · exact ih.operand hoperand
      · exact ⟨arguments, ih⟩
    · obtain rfl : other = tree := ih
      rw [parts_statement, Option.mem_toList, Option.map_eq_some_iff] at hpart
      obtain ⟨operand, hoperand, rfl⟩ := hpart
      exact ⟨operand, hoperand, .refl⟩
    · obtain ⟨body, htask⟩ := task_of_mem_parts_call hpart
      exact absurd htask (hstatement body)

/-! ## Lines -/

/-- What in `tree` a cause at a line is reported at. -/
inductive Statement.Explains (tree : Statement) : Fault.Cause → Nat → Prop where
  | undefinedVariable {name : String} {line : Nat} (h : tree.Mentions (.identifier name line)) :
      Explains tree (.undefinedVariable name) line
  | undefinedFunction {name : String} {arguments : List Expression} {line : Nat}
      (h : tree.Mentions (.call name arguments line)) :
      Explains tree (.undefinedFunction name) line
  | arityMismatch {name : String} {arguments : List Expression} {line : Nat}
      (h : tree.Mentions (.call name arguments line)) (expected : Nat) :
      Explains tree (.arityMismatch name expected arguments.length) line
  | depthExceeded {name : String} {arguments : List Expression} {line : Nat}
      (h : tree.Mentions (.call name arguments line)) (limit : Nat) :
      Explains tree (.depthExceeded limit) line
  | divisionByZero {left right : Expression} {line : Nat}
      (h : tree.Mentions (.binary .divide left right line)) :
      Explains tree .divisionByZero line
  | integerOverflow {op : BinaryOp} {left right : Expression} {line : Nat}
      (h : tree.Mentions (.binary op left right line)) :
      Explains tree (.integerOverflow op) line
  | operandKinds {op : BinaryOp} {left right : Expression} {line : Nat}
      (h : tree.Mentions (.binary op left right line)) (leftKind rightKind : Value.Kind) :
      Explains tree (.operandKinds op leftKind rightKind) line
  | boundKind {name : String} {bound : Expression} {line : Nat}
      (h : tree = .random name bound line) (found : Value.Kind) :
      Explains tree (.boundKind found) line
  | negativeBound {name : String} {bound : Expression} {line : Nat}
      (h : tree = .random name bound line) (found : Int) :
      Explains tree (.negativeBound found) line
  | refusedLine {value : Expression} {line : Nat} (h : tree = .write value line)
      (reason : String) :
      Explains tree (.transfer (.refused reason)) line
  | unreadLine {name : String} {line : Nat} (h : tree = .read name line) (error : TransferError) :
      Explains tree (.transfer error) line

theorem BinaryOp.eq_divide_of_apply {op : BinaryOp} {left right : Value}
    (h : op.apply left right = .error .divisionByZero) : op = .divide := by
  have hyields := op.yields_apply left right
  rw [h] at hyields
  cases hyields with
  | divisionByZero _ _ hop => exact hop

/-- A cause that is raised by an own task of `tree` is reported at what `Explains` it. -/
theorem Point.Raises.explains {tree : Statement} {point : Point} {fault : Fault} {after : Machine}
    (h : point.Raises fault after) (howns : tree.Owns point.task) :
    tree.Explains fault.cause fault.line := by
  -- One case for each way to raise a fault; an operator and a bound may fail in more than one
  -- way.
  cases h with
  | undefinedVariable _ => exact .undefinedVariable howns
  | undefinedFunction _ => exact .undefinedFunction howns
  | arityMismatch _ _ => exact .arityMismatch howns _
  | depthExceeded _ =>
    obtain ⟨arguments, hcall⟩ := howns
    exact .depthExceeded hcall _
  | operator _ _ happly =>
    rcases BinaryOp.cause_of_apply happly with rfl | rfl | rfl
    · exact .integerOverflow howns
    · rw [BinaryOp.eq_divide_of_apply happly] at howns
      exact .divisionByZero howns
    · exact .operandKinds howns _ _
  | write _ _ => exact .refusedLine howns.symm _
  | read _ => exact .unreadLine howns.symm _
  | random _ hdraw =>
    rcases cause_of_drawBelow hdraw with hcause | ⟨n, hcause⟩
    · obtain rfl := hcause
      exact .boundKind howns.symm _
    · obtain rfl := hcause
      exact .negativeBound howns.symm _

/-! ## Statements -/

/-- A fault is raised inside `point`, and by `Surfaces` it is on its way out from there. -/
def Point.ArisesInside (point : Point) (fault : Fault) (after : Machine) : Prop :=
  ∃ culprit raised between, point.Inside culprit ∧ culprit.Raises raised between ∧
    Surfaces raised between fault after

/-- A fault that arises inside a part arises inside `point`, if the part is no statement. -/
theorem Point.ArisesInside.of_part {point part : Point} {fault : Fault} {after : Machine}
    (h : part.ArisesInside fault after) (hpart : part ∈ point.parts)
    (hstatement : ∀ tree, part.task ≠ .statement tree) : point.ArisesInside fault after := by
  obtain ⟨culprit, raised, between, hinside, hraises, hsurfaces⟩ := h
  exact ⟨culprit, raised, between, .head ⟨hpart, hstatement⟩ hinside, hraises, hsurfaces⟩

/-- A `fault` that `Surfaces` as `fault'` arises where it arose. -/
theorem Point.ArisesInside.trans {point : Point} {fault fault' : Fault} {after after' : Machine}
    (h : point.ArisesInside fault after) (hsurfaces : Surfaces fault after fault' after') :
    point.ArisesInside fault' after' := by
  obtain ⟨culprit, raised, between, hinside, hraises, hraised⟩ := h
  exact ⟨culprit, raised, between, hinside, hraises, hraised.trans hsurfaces⟩

/-- What a point `Raises` itself has a `statement` only if the point is one. -/
theorem Point.Raises.statement_eq {point : Point} {fault : Fault} {after : Machine}
    (h : point.Raises fault after) :
    fault.statement = match point.task with
      | .statement tree => some tree.description
      | _ => none := by
  cases h <;> rfl

/-- A fault has no statement to its name as long as it is inside an expression or a call. As
soon as it has left a statement, it has the name of the one that it `ArisesInside` of. -/
theorem Point.exists_arisesInside {point : Point} {fault : Fault} {after : Machine}
    (h : point.result = .error fault after) :
    (fault.statement = none ∧ point.ArisesInside fault after ∧
      ∀ tree, point.task ≠ .statement tree) ∨
    ∃ passed ∈ point.history, ∃ tree, passed.task = .statement tree ∧
      fault.statement = some tree.description ∧ passed.ArisesInside fault after := by
  induction point using Point.parts_induction generalizing fault after with
  | h point ih =>
    rcases point.result_eq_error_iff.mp h with
      ⟨part, hpart, fault', after', hresult, rfl, rfl⟩ | hraises
    · have hsurfaces := point.task.surfaces fault' after'
      rcases ih part hpart hresult with ⟨hnone, harises, hstatement⟩ |
        ⟨passed, hpassed, tree, htask, hsome, harises⟩
      · -- The fault has no name yet, and a statement that it leaves here puts its own to it.
        have hinside := (harises.of_part hpart hstatement).trans hsurfaces
        obtain ⟨whole | tree | ⟨function, arguments, line⟩, machine⟩ := point
        · exact .inl ⟨hnone, hinside, fun _ htask => by cases htask⟩
        · refine .inr ⟨_, mem_history_self _, tree, rfl, ?_, hinside⟩
          show some (fault'.statement.getD _) = _
          rw [hnone, Option.getD_none]
        · obtain ⟨tree, htask⟩ := task_of_mem_parts_call hpart
          exact absurd htask (hstatement tree)
      · -- The fault has a name, which no statement further out replaces.
        refine .inr ⟨passed, mem_history_of_mem_parts hpart hpassed, tree, htask, ?_,
          harises.trans hsurfaces⟩
        rcases point.task with whole | other | ⟨function, arguments, line⟩
        · exact hsome
        · show some (fault'.statement.getD _) = _
          rw [hsome, Option.getD_some]
        · exact hsome
    -- The point raises the fault itself, so only its own statement could have named it.
    · have hinside : point.ArisesInside fault after :=
        ⟨point, fault, after, .refl, hraises, .refl fault after⟩
      have hname := hraises.statement_eq
      rcases htask : point.task with whole | tree | ⟨function, arguments, line⟩ <;>
        rw [htask] at hname
      · exact .inl ⟨hname, hinside, fun _ htask => by cases htask⟩
      · exact .inr ⟨point, mem_history_self point, tree, htask, hname, hinside⟩
      · exact .inl ⟨hname, hinside, fun _ htask => by cases htask⟩

/-- The statement `tree` is to blame for `fault`: the fault has its name, it arises inside the
statement, and its cause and its line are explained by what stands in the statement. -/
structure Point.Blames (point : Point) (tree : Statement) (fault : Fault) (after : Machine) :
    Prop where
  task : point.task = .statement tree
  statement : fault.statement = some tree.description
  inside : point.ArisesInside fault after
  explains : tree.Explains fault.cause fault.line

/-- For every fault of a statement, some statement on the way `Blames` it. -/
theorem Point.exists_blames {point : Point} {statement : Statement} {fault : Fault}
    {after : Machine} (hpoint : point.task = .statement statement)
    (h : point.result = .error fault after) :
    ∃ passed ∈ point.history, ∃ tree, passed.Blames tree fault after := by
  rcases Point.exists_arisesInside h with ⟨-, -, hother⟩ |
    ⟨passed, hpassed, tree, htask, hname, hinside⟩
  · exact absurd hpoint (hother statement)
  · refine ⟨passed, hpassed, tree, htask, hname, hinside, ?_⟩
    obtain ⟨culprit, raised, between, hculprit, hraises, hsurfaces⟩ := hinside
    rw [hsurfaces.cause, hsurfaces.line]
    exact hraises.explains (hculprit.owns htask)

/-! ## Where statements come from -/

/-- The statement stands in `program`, or in the body of a function of the table `functions`. -/
def Program.Offers (program : Program) (functions : FunctionTable) (tree : Statement) : Prop :=
  program.Contains tree ∨ ∃ name function, functions.find? name = some function ∧
    Program.Contains function.body tree

/-- The discipline by which only statements are executed that `program` or `functions` offers. -/
def offering (program : Program) (functions : FunctionTable) : Discipline where
  value _ := True
  expression _ := True
  statement := program.Offers functions

/-- A statement of a body is offered where the definition is, so `offering` is kept. -/
theorem sound_offering (program : Program) (functions : FunctionTable) :
    (offering program functions).Sound where
  operand _ _ := trivial
  -- Inside of a body is inside of the statement that defines it.
  body htree hinner := by
    rcases htree with ⟨top, htop, hcontains⟩ | ⟨name, function, hfound, top, htop, hcontains⟩
    · exact .inl ⟨top, htop, hcontains.tail hinner⟩
    · exact .inr ⟨name, function, hfound, top, htop, hcontains.tail hinner⟩
  operands _ _ := trivial
  literal _ := trivial
  string _ _ := trivial
  list _ := trivial
  operator _ _ _ := trivial
  line _ := trivial
  draw _ _ _ := trivial
  nil := trivial

theorem allowsMachine_offering (program : Program) (machine : Machine) :
    (offering program machine.functions).AllowsMachine machine where
  globals _ _ _ := trivial
  frames _ _ _ _ _ := trivial
  functions name function hfound tree htree := .inr ⟨name, function, hfound, tree, htree, .refl⟩

/-- Every statement that a run executes stands in `program`, or in a function that `machine`
had before. -/
theorem Program.offers_of_mem_history {program : Program} {machine : Machine} {point : Point}
    {tree : Statement} (hpoint : point ∈ program.history machine)
    (htask : point.task = .statement tree) : program.Offers machine.functions tree := by
  have hallows := (sound_offering program machine.functions).allows_programHistory
    (fun top htop => .inl ⟨top, htop, .refl⟩) (allowsMachine_offering program machine) point hpoint
  have hstatement := hallows.task
  rwa [htask] at hstatement

/-! ## Runs -/

theorem Program.history_singleton (tree : Statement) (machine : Machine) :
    Program.history [tree] machine = Point.history ⟨.statement tree, machine⟩ := by
  unfold Program.history
  rw [Program.points_cons, pointsAfter]
  split <;> simp

/-- **A fault names the statement and the line where it arose.** A fault of `program.run` is
the refusal of the final flush, at line zero and without a statement, or a point of the
history `Blames` a statement for it, which by `Offers` stands in the program or in a function
that was there before. For a fault of `statement.execute` a statement is to blame as well. -/
theorem Program.exists_blames_of_run (program : Program) (statement : Statement)
    (machine : Machine) :
    (∀ fault after, program.run machine = .error fault after →
      (∃ value reason, Program.execute .nil program machine = .ok value after ∧
        after.output.flushRefusal = some reason ∧
        fault = ⟨.transfer (.refused reason), 0, none⟩) ∨
      ∃ point ∈ program.history machine, ∃ tree, point.Blames tree fault after ∧
        program.Offers machine.functions tree) ∧
    ∀ fault after, statement.execute machine = .error fault after →
      ∃ point ∈ Point.history ⟨.statement statement, machine⟩, ∃ tree,
        point.Blames tree fault after ∧ Program.Offers [statement] machine.functions tree := by
  constructor
  · intro fault after h
    rcases Program.run_eq_error_iff.mp h with hexecute | hflush
    · right
      -- The fault comes out of a statement of the program, whose history is part of that of the
      -- run.
      obtain ⟨start, hstart, hresult⟩ := execute_eq_error_iff.mp hexecute
      obtain ⟨top, -, htask, -⟩ := mem_programPoints hstart
      obtain ⟨point, hpoint, tree, hblames⟩ := Point.exists_blames htask hresult
      have hhistory := List.mem_flatMap.mpr ⟨start, hstart, hpoint⟩
      exact ⟨point, hhistory, tree, hblames, Program.offers_of_mem_history hhistory hblames.task⟩
    · exact .inl hflush
  · intro fault after h
    have hresult : Point.result ⟨.statement statement, machine⟩ = .error fault after := h
    obtain ⟨point, hpoint, tree, hblames⟩ := Point.exists_blames rfl hresult
    rw [← Program.history_singleton] at hpoint ⊢
    exact ⟨point, hpoint, tree, hblames, Program.offers_of_mem_history hpoint hblames.task⟩

/-- A program in which a statement of a body divides by zero, on a line of its own. -/
def Program.dividing : Program :=
  [.define "share" ["whole"]
      [.write (.binary .divide (.identifier "whole" 3) (.literal 0) 3) 2] 1,
    .assign "part" (.call "share" [.literal 7] 5) 5]

/-- In `Program.dividing` the write of the body is to blame for the division, not the
assignment that calls it. -/
theorem dividing_blames_write :
    ∃ after, Program.dividing.run (.fresh .unlimited [] (.scripted []) 1) =
        .error ⟨.divisionByZero, 3, some "write"⟩ after ∧
      ∃ point ∈ Program.dividing.history (.fresh .unlimited [] (.scripted []) 1), ∃ tree,
        point.Blames tree ⟨.divisionByZero, 3, some "write"⟩ after ∧
        Program.dividing.Offers .empty tree := by
  obtain ⟨after, hrun⟩ : ∃ after, Program.dividing.run (.fresh .unlimited [] (.scripted []) 1) =
      .error ⟨.divisionByZero, 3, some "write"⟩ after := ⟨_, rfl⟩
  have hblames := (Program.exists_blames_of_run .dividing (.read "line" 1)
    (.fresh .unlimited [] (.scripted []) 1)).1 _ after hrun
  rcases hblames with ⟨_, _, -, -, hflush⟩ | hblames
  · cases hflush
  · exact ⟨after, hrun, hblames⟩

end Scriptlet
