import Scriptlet.Proofs.Evaluation.Points

/-!
# Trails

A run as a sequence of single steps. The points of a run start and end one inside the other, and the
trail of a run lists these starts and ends in order. The machine changes at them and nowhere in
between, so whatever is to be said of a machine after a run can be said of one step and then be
carried along the trail.

* `Mark` is the start or the end of a point, and `Point.trail` and `Program.trail` are the marks of
  a point and of a run.
* `Statement.effect_eq_bind` cuts a statement in two: it evaluates its expression, and then it does
  the rest.
* `Statement.leaves_finish` says what a statement leaves alone when it does the rest.
* `Mark.Step` says what happens to the machine at a mark, and `Path` goes along several marks.
* `Point.path` and `Program.path` say that an evaluation goes along its trail.
* `Program.mem_history_of_mem_trail` and `Program.exists_path_of_mem_history` say that the marks of
  a trail are those of the points of the history.
-/

namespace Scriptlet

open Evaluation

variable {α β : Type}

/-- A point of a run starts or ends. -/
inductive Mark where
  | start (point : Point)
  | stop (point : Point)

/-- The point that starts or ends. -/
def Mark.point : Mark → Point
  | .start point => point
  | .stop point => point

/-! ## Trails -/

/-- The marks between the start and the end of `point`, in order. -/
def Point.trail (point : Point) : List Mark :=
  .start point :: ((point.parts.attach.flatMap fun part => Point.trail part.1) ++ [.stop point])
termination_by (point.machine.openFrames, point.task.height)
decreasing_by exact Point.parts_lt part.2

/-- The trails of `points`, one behind the other. -/
def Point.trails (points : List Point) : List Mark :=
  points.flatMap Point.trail

/-- The equation of `Point.trail`, without the proofs that make it end. -/
theorem Point.trail_eq (point : Point) :
    point.trail = .start point :: (trails point.parts ++ [.stop point]) := by
  rw [Point.trail, List.flatMap_subtype (g := Point.trail) fun _ _ => rfl, List.unattach_attach,
    trails]

@[simp]
theorem Point.trails_nil : trails [] = [] := rfl

@[simp]
theorem Point.trails_cons (point : Point) (points : List Point) :
    trails (point :: points) = point.trail ++ trails points := rfl

@[simp]
theorem Point.trails_append (points points' : List Point) :
    trails (points ++ points') = trails points ++ trails points' :=
  List.flatMap_append

/-- The marks of the run of `program`. -/
def Program.trail (program : Program) (machine : Machine) : List Mark :=
  Point.trails (program.points machine)

theorem Point.mem_history_of_mem_trail {point : Point} {mark : Mark} (h : mark ∈ point.trail) :
    mark.point ∈ point.history := by
  induction point using Point.parts_induction with
  | h point ih =>
    rw [trail_eq] at h
    rcases List.mem_cons.mp h with rfl | h
    · exact mem_history_self point
    rcases List.mem_append.mp h with h | h
    · obtain ⟨part, hpart, hmark⟩ := List.mem_flatMap.mp h
      exact mem_history_of_mem_parts hpart (ih part hpart hmark)
    · rw [List.mem_singleton.mp h]
      exact mem_history_self point

/-- The marks of a trail are those of the points of the `history`. -/
theorem Program.mem_history_of_mem_trail {program : Program} {machine : Machine} {mark : Mark}
    (h : mark ∈ program.trail machine) : mark.point ∈ program.history machine := by
  obtain ⟨start, hstart, hmark⟩ := List.mem_flatMap.mp h
  exact List.mem_flatMap.mpr ⟨start, hstart, Point.mem_history_of_mem_trail hmark⟩

theorem Point.start_mem_trail {point passed : Point} (h : passed ∈ point.history) :
    .start passed ∈ point.trail := by
  induction point using Point.parts_induction with
  | h point ih =>
    rw [history_eq] at h
    rw [trail_eq]
    rcases List.mem_cons.mp h with rfl | h
    · exact List.mem_cons_self
    · obtain ⟨part, hpart, hpassed⟩ := List.mem_flatMap.mp h
      exact List.mem_cons_of_mem _ (List.mem_append_left _
        (List.mem_flatMap.mpr ⟨part, hpart, ih part hpart hpassed⟩))

/-- The points of the `history` start on the trail. -/
theorem Program.start_mem_trail {program : Program} {machine : Machine} {point : Point}
    (h : point ∈ program.history machine) : .start point ∈ program.trail machine := by
  obtain ⟨start, hstart, hpoint⟩ := List.mem_flatMap.mp h
  exact List.mem_flatMap.mpr ⟨start, hstart, Point.start_mem_trail hpoint⟩

/-! ## Statements in two parts -/

/-- A statement first evaluates its `operand?`. One without an expression has nothing to
evaluate. -/
def Statement.evaluateOperand (tree : Statement) : Evaluation Value :=
  match tree.operand? with
  | some operand => operand.evaluate
  | none => pure .nil

/-- What a statement does with the value of its `operand?`. -/
def Statement.finish : Statement → Value → Evaluation Value
  | .assign name _ _, value => bindName name value
  | .write _ line, value => do
    writeValue value line
    return value
  | .read name line, _ => do
    bindName name (.string (← readLine line))
  | .random name _ line, bound => do
    bindName name (← drawBelow bound line)
  | .define name parameters body _, _ => do
    defineFunction ⟨name, parameters, body⟩
    return .nil
  | .evaluate _ _, value => pure value

/-- The effect of `tree` in two parts: `evaluateOperand`, and then `finish`. -/
theorem Statement.effect_eq_bind (tree : Statement) :
    tree.effect = tree.evaluateOperand >>= tree.finish := by
  rcases tree with ⟨name, e, line⟩ | ⟨e, line⟩ | ⟨name, line⟩ | ⟨name, e, line⟩ |
    ⟨name, parameters, body, line⟩ | ⟨e, line⟩
  · exact effect_assign name e line
  · exact effect_write e line
  · rfl
  · exact effect_random name e line
  · rfl
  · exact (bind_pure e.evaluate).symm

theorem Statement.after_execute (tree : Statement) (machine : Machine) :
    tree.execute.after machine = tree.effect.after (machine.starting tree) := by
  rw [Evaluation.after, execute_apply]
  exact after_within tree tree.effect _

/-- A statement whose expression has the value `value` ends as the rest of it does. -/
theorem Statement.execute_of_evaluateOperand {tree : Statement} {machine between : Machine}
    {value : Value} (h : tree.evaluateOperand (machine.starting tree) = .ok value between) :
    tree.execute machine = Evaluation.within tree (tree.finish value) between := by
  rw [execute_apply, effect_eq_bind]
  unfold Evaluation.within
  rw [bind_of_ok h]

/-- Where `evaluateOperand` ends in a fault, the statement ends in it, with its own name at
it. -/
theorem Statement.execute_of_evaluateOperand_error {tree : Statement} {machine between : Machine}
    {fault : Fault} (h : tree.evaluateOperand (machine.starting tree) = .error fault between) :
    tree.execute machine = .error (fault.within tree) between := by
  rw [execute_apply, effect_eq_bind]
  unfold Evaluation.within
  rw [bind_of_error h]

/-! ## What a statement does in the end -/

section Finish

variable (name : String) (value : Value) (line : Nat) (machine : Machine)

theorem Statement.after_finish_write (operand : Expression) :
    ((write operand line).finish value).after machine =
      { machine with output := (machine.output.writeLine value).1 } := by
  rw [finish, after_bind]
  rcases h : machine.output.writeLine value with ⟨output, _ | reason⟩
  · rw [writeValue_of_taken h]
    rfl
  · rw [writeValue_of_refused h]

/-- A read takes a line from the input and binds `name` if the line is text. -/
theorem Statement.after_finish_read :
    ((read name line).finish value).after machine =
      match Input.readLine machine.input with
      | (.ok text, input) => { machine with input := input }.bind name (.string text)
      | (.error _, input) => { machine with input := input } := by
  rw [finish, after_bind]
  rcases h : Input.readLine machine.input with ⟨error | text, input⟩
  · rw [readLine_of_error h]
  · rw [readLine_of_ok h]
    rfl

/-- A draw below a bound that is not negative takes words and binds `name`; below any other
bound nothing is drawn. -/
theorem Statement.after_finish_random (operand : Expression) :
    ((random name operand line).finish value).after machine =
      match value with
      | .integer n =>
        if 0 ≤ n then
          { machine with words := (Random.draw n.toNat machine.words).2 }.bind name
            (.integer (Random.draw n.toNat machine.words).1)
        else machine
      | _ => machine := by
  rw [finish, after_bind]
  rcases value with n | text | items | truth | _
  · by_cases hn : 0 ≤ n
    · rw [drawBelow_of_nonneg hn]
      dsimp only
      rw [if_pos hn]
      rfl
    · have hfail : drawBelow (.integer n) line = fail (.negativeBound n) line := if_neg hn
      rw [hfail]
      dsimp only
      rw [if_neg hn]
      rfl
  all_goals rfl

/-- A `.define` statement logs `.defining`, stores the function, and logs `.redefined` if
there was one of the name. -/
theorem Statement.after_finish_define (parameters : List String) (body : List Statement) :
    ((define name parameters body line).finish value).after machine =
      if (machine.functions.find? name).isSome then
        Machine.record { machine.record (.defining name parameters.length) with
          functions := machine.functions.define ⟨name, parameters, body⟩ } (.redefined name)
      else { machine.record (.defining name parameters.length) with
        functions := machine.functions.define ⟨name, parameters, body⟩ } := by
  rw [finish, after_bind]
  rcases h : machine.functions.find? name with _ | old
  · rw [defineFunction_of_find?_eq_none (by exact h)]
    rfl
  · rw [defineFunction_of_find?_eq_some (by exact h)]
    rfl

/-- What `tree` leaves alone in the end: only a write may change the output, only a read the
input, and only a definition the functions. -/
structure Statement.Leaves (tree : Statement) (before after : Machine) : Prop where
  output (h : ∀ operand line, tree ≠ .write operand line) : after.output = before.output
  input (h : ∀ name line, tree ≠ .read name line) : after.input = before.input
  functions (h : ∀ name parameters body line, tree ≠ .define name parameters body line) :
    after.functions = before.functions

variable {name value machine} in
theorem Statement.Leaves.bind {tree : Statement} {before : Machine}
    (h : tree.Leaves before machine) :
    tree.Leaves before (machine.bind name value) := by
  obtain ⟨globals, frames, hbind⟩ := machine.exists_bind_eq name value
  rw [hbind]
  exact ⟨h.output, h.input, h.functions⟩

/-- In the end a statement `Leaves` alone what is not its business. -/
theorem Statement.leaves_finish (tree : Statement) :
    tree.Leaves machine ((tree.finish value).after machine) := by
  have hnothing (tree : Statement) : tree.Leaves machine machine :=
    ⟨fun _ => rfl, fun _ => rfl, fun _ => rfl⟩
  -- Each device is touched by one kind of statement, and the binding behind it touches none.
  rcases tree with ⟨name, e, line⟩ | ⟨e, line⟩ | ⟨name, line⟩ | ⟨name, e, line⟩ |
    ⟨name, parameters, body, line⟩ | ⟨e, line⟩
  · exact (hnothing _).bind
  · rw [after_finish_write]
    exact ⟨fun h => absurd rfl (h e line), fun _ => rfl, fun _ => rfl⟩
  · rw [after_finish_read]
    have htaken (input : List UInt8) :
        (Statement.read name line).Leaves machine { machine with input := input } :=
      ⟨fun _ => rfl, fun h => absurd rfl (h name line), fun _ => rfl⟩
    rcases Input.readLine machine.input with ⟨error | text, input⟩
    · exact htaken input
    · exact (htaken input).bind
  · rw [after_finish_random]
    split
    · split
      · exact Leaves.bind ⟨fun _ => rfl, fun _ => rfl, fun _ => rfl⟩
      · exact hnothing _
    · exact hnothing _
  · rw [after_finish_define]
    split <;>
      exact ⟨fun _ => rfl, fun _ => rfl, fun h => absurd rfl (h name parameters body line)⟩
  · exact hnothing _

end Finish

/-! ## Steps -/

/-- What happens to the machine at a mark: `Step before mark after`. There is one constructor
for the start and one for the end of each kind of point, as often as it can go in different
ways. -/
inductive Mark.Step : Machine → Mark → Machine → Prop where
  | startExpression (tree : Expression) (machine : Machine) :
      Step machine (.start ⟨.expression tree, machine⟩) machine
  | stopExpression (tree : Expression) (machine after : Machine) :
      Step after (.stop ⟨.expression tree, machine⟩) after
  | startStatement (tree : Statement) (machine : Machine) :
      Step machine (.start ⟨.statement tree, machine⟩) (machine.starting tree)
  /-- The operand has a `value`, and `Statement.finish` has done the rest. -/
  | finish {tree : Statement} {machine between : Machine} {value : Value}
      (h : tree.evaluateOperand (machine.starting tree) = .ok value between) :
      Step between (.stop ⟨.statement tree, machine⟩) ((tree.finish value).after between)
  /-- The operand has ended in a `fault`. -/
  | abandon {tree : Statement} {machine between : Machine} {fault : Fault}
      (h : tree.evaluateOperand (machine.starting tree) = .error fault between) :
      Step between (.stop ⟨.statement tree, machine⟩) between
  | enter {machine : Machine} (h : machine.depth < machine.depthLimit) (function : Function)
      (arguments : List Value) (line : Nat) :
      Step machine (.start ⟨.call function arguments line, machine⟩)
        (machine.entering function arguments)
  | leave {machine : Machine} (h : machine.depth < machine.depthLimit) (function : Function)
      (arguments : List Value) (line : Nat) (after : Machine) :
      Step after (.stop ⟨.call function arguments line, machine⟩) after.pop
  /-- At the `depthLimit` no frame is opened for a call. -/
  | refuse {machine : Machine} (h : machine.depthLimit ≤ machine.depth) (function : Function)
      (arguments : List Value) (line : Nat) :
      Step machine (.start ⟨.call function arguments line, machine⟩) machine
  | giveUp {machine : Machine} (h : machine.depthLimit ≤ machine.depth) (function : Function)
      (arguments : List Value) (line : Nat) (after : Machine) :
      Step after (.stop ⟨.call function arguments line, machine⟩) after

theorem Mark.Step.eq_machine {point : Point} {before after : Machine}
    (h : Mark.Step before (.start point) after) : before = point.machine := by
  cases h <;> rfl

/-- What happens to the machine along some marks, `Step` by `Step`. -/
inductive Path : Machine → List Mark → Machine → Prop where
  | nil (machine : Machine) : Path machine [] machine
  | cons {before between after : Machine} {mark : Mark} {marks : List Mark}
      (h : mark.Step before between) (hrest : Path between marks after) :
      Path before (mark :: marks) after

namespace Path

variable {machine between after : Machine} {marks marks' : List Mark}

theorem append (h : Path machine marks between) (h' : Path between marks' after) :
    Path machine (marks ++ marks') after := by
  induction h with
  | nil _ => exact h'
  | cons hstep _ ih => exact .cons hstep (ih h')

theorem exists_of_append (h : Path machine (marks ++ marks') after) :
    ∃ between, Path machine marks between ∧ Path between marks' after := by
  induction marks generalizing machine with
  | nil => exact ⟨machine, .nil machine, h⟩
  | cons mark marks ih =>
    rw [List.cons_append] at h
    cases h with
    | cons hstep hrest =>
      obtain ⟨between, hfirst, hsecond⟩ := ih hrest
      exact ⟨between, .cons hstep hfirst, hsecond⟩

theorem single {mark : Mark} (h : mark.Step machine after) : Path machine [mark] after :=
  .cons h (.nil after)

/-- Behind `first`, `second` adds the trails of the points that `next` gives for its value. -/
theorem bind {first : Evaluation α} {second : α → Evaluation β}
    {next : α → Machine → List Point} (hfirst : Path machine marks (first.after machine))
    (hsecond : ∀ value between, first machine = .ok value between →
      Path between (Point.trails (next value between)) ((second value).after between)) :
    Path machine (marks ++ Point.trails (pointsAfter first machine next))
      ((first >>= second).after machine) := by
  unfold pointsAfter
  rw [after_bind]
  rcases h : first machine with ⟨value, between⟩ | ⟨fault, between⟩
  · rw [after_of_ok h] at hfirst
    exact hfirst.append (hsecond value between h)
  · rw [after_of_error h] at hfirst
    rwa [Point.trails_nil, List.append_nil]

/-- If `second` leaves the machine alone, it adds nothing. -/
theorem bind_silent {first : Evaluation α} {second : α → Evaluation β}
    (hfirst : Path machine marks (first.after machine))
    (hsecond : ∀ value, Moves Eq (second value)) :
    Path machine marks ((first >>= second).after machine) := by
  rw [after_bind]
  rcases h : first machine with ⟨value, between⟩ | ⟨fault, between⟩
  · rw [after_of_ok h] at hfirst
    show Path machine marks ((second value).after between)
    rwa [← hsecond value between]
  · rwa [after_of_error h] at hfirst

end Path

/-! ## From the parts to the point -/

theorem Expression.points_singleton (tree : Expression) (machine : Machine) :
    Expression.points [tree] machine = [⟨.expression tree, machine⟩] := by
  rw [Expression.points_cons, pointsAfter]
  split <;> rfl

/-- If each of `Expression.points` goes along its trail, `evaluateAll` goes along all of them. -/
theorem path_evaluateAll {trees : List Expression} {machine : Machine}
    (h : ∀ point ∈ Expression.points trees machine, Path point.machine point.trail point.after) :
    Path machine (Point.trails (Expression.points trees machine))
      ((Expression.evaluateAll trees).after machine) := by
  induction trees generalizing machine with
  | nil => exact .nil machine
  | cons tree trees ih =>
    rw [Expression.points_cons, List.forall_mem_cons] at h
    rw [evaluateAll_cons, Expression.points_cons, Point.trails_cons]
    -- The first expression goes along its trail, then the others, where it has given a value.
    refine .bind h.1 fun value between hvalue => ?_
    refine .bind_silent (ih fun point hpoint => ?_) fun values => Moves.pure _
    exact h.2 point (mem_pointsAfter.mpr ⟨value, between, hvalue, hpoint⟩)

/-- If each of `Program.points` goes along its trail, executing the `trees` goes along all of
them. -/
theorem path_execute {trees : Program} {last : Value} {machine : Machine}
    (h : ∀ point ∈ Program.points trees machine, Path point.machine point.trail point.after) :
    Path machine (Point.trails (Program.points trees machine))
      ((Program.execute last trees).after machine) := by
  induction trees generalizing machine last with
  | nil => exact .nil machine
  | cons tree trees ih =>
    rw [Program.points_cons, List.forall_mem_cons] at h
    rw [execute_cons, Program.points_cons, Point.trails_cons]
    refine .bind h.1 fun value between hvalue => ih fun point hpoint => ?_
    exact h.2 point (mem_pointsAfter.mpr ⟨value, between, hvalue, hpoint⟩)

/-- An expression goes along the trails of its `parts`; its own two marks change nothing. -/
theorem path_evaluate {tree : Expression} {machine : Machine}
    (h : ∀ part ∈ Point.parts ⟨.expression tree, machine⟩,
      Path part.machine part.trail part.after) :
    Path machine (Point.trails (Point.parts ⟨.expression tree, machine⟩))
      (tree.evaluate.after machine) := by
  rcases tree with n | text | ⟨name, line⟩ | ⟨op, left, right, line⟩ | items |
    ⟨name, arguments, line⟩
  · exact .nil machine
  · exact .nil machine
  · rcases hfound : machine.current.find? name with _ | value
    · rw [after_of_error (evaluate_identifier_of_find?_eq_none hfound line)]
      exact .nil machine
    · rw [after_of_ok (evaluate_identifier_of_find?_eq_some hfound line)]
      exact .nil machine
  · have hparts : Point.parts ⟨.expression (.binary op left right line), machine⟩ =
        Expression.points [left, right] machine := rfl
    rw [hparts, Expression.points_cons, List.forall_mem_cons] at h
    rw [hparts, Expression.points_cons, Point.trails_cons, evaluate_binary]
    -- The left operand is followed by the right one, and the operator adds nothing.
    refine .bind h.1 fun a between ha => ?_
    refine .bind_silent ?_ fun b => Moves.ofCause _ _
    rw [Expression.points_singleton, Point.trails_cons, Point.trails_nil, List.append_nil]
    exact h.2 ⟨.expression right, between⟩
      (mem_pointsAfter.mpr ⟨a, between, ha, List.mem_cons_self⟩)
  · rw [evaluate_list]
    exact (path_evaluateAll h).bind_silent fun values => Moves.pure _
  · rcases hfound : machine.functions.find? name with _ | function
    · rw [Point.parts_call_of_find?_eq_none hfound,
        after_of_error (evaluate_call_of_find?_eq_none hfound arguments line)]
      exact .nil machine
    by_cases hlength : arguments.length = function.arity
    · rw [Point.parts_call_of_length_eq hfound hlength, List.forall_mem_append] at h
      rw [Point.parts_call_of_length_eq hfound hlength, Evaluation.after,
        evaluate_call_of_length_eq hfound hlength, Point.trails_append]
      refine Path.bind (path_evaluateAll h.1) fun values between hvalues => ?_
      rw [Point.trails_cons, Point.trails_nil, List.append_nil]
      exact h.2 _ (mem_pointsAfter.mpr ⟨values, between, hvalues, List.mem_singleton_self _⟩)
    · rw [Point.parts_call_of_length_ne hfound hlength,
        after_of_error (evaluate_call_of_length_ne hfound hlength line)]
      exact .nil machine

theorem path_evaluateOperand {tree : Statement} {machine : Machine}
    (h : ∀ part ∈ Point.parts ⟨.statement tree, machine⟩,
      Path part.machine part.trail part.after) :
    Path (machine.starting tree) (Point.trails (Point.parts ⟨.statement tree, machine⟩))
      (tree.evaluateOperand.after (machine.starting tree)) := by
  rw [Point.parts_statement] at h ⊢
  unfold Statement.evaluateOperand
  rcases hsome : tree.operand? with _ | operand
  · exact .nil _
  · rw [hsome] at h
    rw [Option.map_some, Option.toList_some, Point.trails_cons, Point.trails_nil, List.append_nil]
    exact h _ List.mem_cons_self

/-- A statement goes along its `trail`: by `startStatement`, then its operand, then by
`finish` or `abandon`. -/
theorem path_execute_statement {tree : Statement} {machine : Machine}
    (h : ∀ part ∈ Point.parts ⟨.statement tree, machine⟩,
      Path part.machine part.trail part.after) :
    Path machine (Point.trail ⟨.statement tree, machine⟩) (tree.execute.after machine) := by
  have hoperand := path_evaluateOperand h
  -- A fault of the expression leaves nothing to be done, and the statement ends there.
  rw [Point.trail_eq, tree.after_execute, tree.effect_eq_bind, after_bind]
  refine .cons (.startStatement tree machine) ?_
  rcases hresult : tree.evaluateOperand (machine.starting tree) with
    ⟨value, between⟩ | ⟨fault, between⟩
  · rw [after_of_ok hresult] at hoperand
    exact hoperand.append (.single (.finish hresult))
  · rw [after_of_error hresult] at hoperand
    exact hoperand.append (.single (.abandon hresult))

/-- A call goes along its `trail`: by `enter`, then its body, then by `leave`; or by `refuse`
and `giveUp`. -/
theorem path_attempt {function : Function} {arguments : List Value} {line : Nat}
    {machine : Machine}
    (h : ∀ part ∈ Point.parts ⟨.call function arguments line, machine⟩,
      Path part.machine part.trail part.after) :
    Path machine (Point.trail ⟨.call function arguments line, machine⟩)
      ((function.attempt arguments line).after machine) := by
  rw [Point.trail_eq]
  rcases Nat.lt_or_ge machine.depth machine.depthLimit with hroom | hlimit
  · rw [Point.parts_call_of_lt_limit hroom] at h ⊢
    have hattempt : (function.attempt arguments line).after machine =
        ((Program.execute .nil function.body).after (machine.entering function arguments)).pop := by
      rw [Evaluation.after, attempt_of_lt_limit hroom]
      exact after_inFrame _ _ _
    rw [hattempt]
    exact .cons (.enter hroom function arguments line)
      ((path_execute h).append (.single (.leave hroom function arguments line _)))
  -- At the limit the call starts and ends on the same machine.
  · rw [Point.parts_call_of_limit_le hlimit,
      after_of_error (attempt_of_limit_le hlimit function arguments line)]
    exact .cons (.refuse hlimit function arguments line)
      (.single (.giveUp hlimit function arguments line machine))

/-- What is done at `point` goes along its trail. By induction on the parts of points. -/
theorem Point.path (point : Point) : Path point.machine point.trail point.after := by
  induction point using Point.parts_induction with
  | h point ih =>
    obtain ⟨tree | tree | ⟨function, arguments, line⟩, machine⟩ := point
    · rw [trail_eq]
      exact .cons (.startExpression tree machine)
        ((path_evaluate ih).append (.single (.stopExpression tree machine _)))
    · exact path_execute_statement ih
    · exact path_attempt ih

/-- A run goes along its trail. With a lemma on `Mark.Step` this says what a whole run does to
a machine. -/
theorem Program.path (program : Program) (machine : Machine) :
    Path machine (program.trail machine) (program.run.after machine) := by
  have hexecute : Path machine _ ((Program.execute .nil program).after machine) :=
    path_execute fun point _ => point.path
  -- The flush at the end has no mark, for it leaves the machine as it is.
  have hflush : Moves Eq Evaluation.flush := fun machine => (after_flush machine).symm
  exact hexecute.bind_silent fun value => hflush.bind fun _ => Moves.pure value

/-- At each `point` of its `history` the trail of a run can be cut: it leads to the machine of
the point, and from there to the end of the run. -/
theorem Program.exists_path_of_mem_history {program : Program} {machine : Machine} {point : Point}
    (h : point ∈ program.history machine) :
    ∃ marks marks', program.trail machine = marks ++ marks' ∧ Path machine marks point.machine ∧
      Path point.machine marks' (program.run.after machine) := by
  obtain ⟨marks, marks', htrail⟩ := List.append_of_mem (Program.start_mem_trail h)
  have hpath := program.path machine
  rw [htrail] at hpath
  obtain ⟨between, hbefore, hafter⟩ := hpath.exists_of_append
  obtain rfl : between = point.machine := by
    cases hafter with
    | cons hstep _ => exact hstep.eq_machine
  exact ⟨marks, _, htrail, hbefore, hafter⟩

end Scriptlet
