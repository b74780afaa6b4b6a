import Scriptlet.Proofs.Evaluation.Equations
import Scriptlet.Proofs.Evaluation.Termination

/-!
# Points of a run

A run passes through points: it starts to evaluate an expression, to execute a statement or to call
a function, each on a machine. The points that a run passes through between the start and the end of
one point are those of its parts.

* `Task.points` are the points at which tasks are performed one after the other.
* `Point.parts` are the direct parts of a point, in order; a part that ends in a fault is the last.
* `Point.events` is what a point adds to the log itself.
* `Point.mem_parts` says which parts a point can have.
* `Point.history` and `Program.history` are all points on the way, in the order of their starts.
* `Point.parts_induction` and `Program.history_induction` go from the parts to the point, and from
  the point to its parts.
-/

namespace Scriptlet

open Evaluation

variable {α : Type}

/-- What a run can be about to do. -/
inductive Task where
  /-- Evaluate an expression. -/
  | expression (tree : Expression)
  /-- Execute a statement. -/
  | statement (tree : Statement)
  /-- Call a function, which was found by its name, with as many values as it has parameters. -/
  | call (function : Function) (arguments : List Value) (line : Nat)

/-- A point of a run: what comes next, and the machine that it happens on. -/
structure Point where
  task : Task
  machine : Machine

/-- The evaluation that a task is. -/
def Task.perform : Task → Evaluation Value
  | .expression tree => tree.evaluate
  | .statement tree => tree.execute
  | .call function arguments line => function.attempt arguments line

/-- The points that follow `evaluation`, if it gives a value. -/
def pointsAfter (evaluation : Evaluation α) (machine : Machine)
    (next : α → Machine → List Point) : List Point :=
  match evaluation machine with
  | .ok value after => next value after
  | .error _ _ => []

/-- The points at which some tasks are performed one after the other. A task that ends in a
fault is the last. -/
def Task.points : List Task → Machine → List Point
  | [], _ => []
  | task :: tasks, machine =>
    ⟨task, machine⟩ :: pointsAfter task.perform machine fun _ after => Task.points tasks after

/-- The points at which `trees` are evaluated one after the other. -/
def Expression.points (trees : List Expression) (machine : Machine) : List Point :=
  Task.points (trees.map .expression) machine

/-- The points at which `trees` are executed one after the other. -/
def Program.points (trees : Program) (machine : Machine) : List Point :=
  Task.points (trees.map .statement) machine

/-- The expression that a statement evaluates. -/
def Statement.operand? : Statement → Option Expression
  | .assign _ value _ => some value
  | .write value _ => some value
  | .read _ _ => none
  | .random _ bound _ => some bound
  | .define _ _ _ _ => none
  | .evaluate value _ => some value

/-- The machine on which the body of `function` is executed: the call has been logged, and a
frame binds the parameters. -/
def Machine.entering (machine : Machine) (function : Function) (arguments : List Value) :
    Machine :=
  (machine.record (.calling function.name (machine.depth + 1))).push
    (.ofParameters function.parameters arguments)

namespace Point

/-- How a point ends. -/
def result (point : Point) : EStateM.Result Fault Machine Value :=
  point.task.perform point.machine

/-- The machine when a point has ended, with a value or with a fault. -/
def after (point : Point) : Machine :=
  point.task.perform.after point.machine

/-- The points that a point consists of, in order. A call is attempted when its arguments have
values, and the statements of the body are executed when a frame may be opened. -/
def parts : Point → List Point
  | ⟨.expression tree, machine⟩ =>
    match tree with
    | .literal _ => []
    | .string _ => []
    | .identifier _ _ => []
    | .binary _ left right _ => Expression.points [left, right] machine
    | .list items => Expression.points items machine
    | .call name arguments line =>
      match machine.functions.find? name with
      | none => []
      | some function =>
        if arguments.length ≠ function.arity then []
        else
          Expression.points arguments machine ++
            pointsAfter (Expression.evaluateAll arguments) machine fun values after =>
              [⟨.call function values line, after⟩]
  | ⟨.statement tree, machine⟩ =>
    (tree.operand?.map fun operand => ⟨.expression operand, machine.starting tree⟩).toList
  | ⟨.call function arguments _, machine⟩ =>
    if machine.depth < machine.depthLimit then
      Program.points function.body (machine.entering function arguments)
    else []

/-- What a point adds to the log itself, in order. A statement is logged when it starts, a
call when its frame is opened, and a definition as such. -/
def events : Point → List Event
  | ⟨.expression _, _⟩ => []
  | ⟨.statement tree, machine⟩ =>
    .executing tree.line machine.depth tree.description ::
      match tree with
      | .define name parameters _ _ =>
        .defining name parameters.length ::
          if (machine.functions.find? name).isSome then [.redefined name] else []
      | _ => []
  | ⟨.call function _ _, machine⟩ =>
    if machine.depth < machine.depthLimit then [.calling function.name (machine.depth + 1)] else []

end Point

/-! ## Parts -/

theorem mem_pointsAfter {evaluation : Evaluation α} {machine : Machine}
    {next : α → Machine → List Point} {point : Point} :
    point ∈ pointsAfter evaluation machine next ↔
      ∃ value after, evaluation machine = .ok value after ∧ point ∈ next value after := by
  unfold pointsAfter
  rcases evaluation machine with ⟨value, after⟩ | ⟨fault, after⟩ <;> grind

theorem Point.parts_statement (tree : Statement) (machine : Machine) :
    Point.parts ⟨.statement tree, machine⟩ =
      (tree.operand?.map fun operand => ⟨.expression operand, machine.starting tree⟩).toList :=
  rfl

theorem Point.parts_call_of_lt_limit {machine : Machine} (h : machine.depth < machine.depthLimit)
    (function : Function) (arguments : List Value) (line : Nat) :
    Point.parts ⟨.call function arguments line, machine⟩ =
      Program.points function.body (machine.entering function arguments) :=
  if_pos h

theorem Point.parts_call_of_limit_le {machine : Machine} (h : machine.depthLimit ≤ machine.depth)
    (function : Function) (arguments : List Value) (line : Nat) :
    Point.parts ⟨.call function arguments line, machine⟩ = [] :=
  if_neg (Nat.not_lt.mpr h)

theorem Point.parts_call_of_find?_eq_none {name : String} {machine : Machine}
    (h : machine.functions.find? name = none) (arguments : List Expression) (line : Nat) :
    Point.parts ⟨.expression (.call name arguments line), machine⟩ = [] := by
  simp only [parts, h]

theorem Point.parts_call_of_length_ne {name : String} {machine : Machine} {function : Function}
    (h : machine.functions.find? name = some function) {arguments : List Expression}
    (hlength : arguments.length ≠ function.arity) (line : Nat) :
    Point.parts ⟨.expression (.call name arguments line), machine⟩ = [] := by
  simp only [parts, h, hlength, ne_eq, not_false_eq_true, if_true]

/-- Where the function is found and the number of arguments is right, the parts are the
arguments and, if these have `values`, the attempt. -/
theorem Point.parts_call_of_length_eq {name : String} {machine : Machine} {function : Function}
    (h : machine.functions.find? name = some function) {arguments : List Expression}
    (hlength : arguments.length = function.arity) (line : Nat) :
    Point.parts ⟨.expression (.call name arguments line), machine⟩ =
      Expression.points arguments machine ++
        pointsAfter (Expression.evaluateAll arguments) machine fun values after =>
          [⟨.call function values line, after⟩] := by
  simp only [parts, h, hlength, ne_eq, not_true_eq_false, if_false]

theorem exists_mem_pointsAfter_iff {evaluation : Evaluation α} {machine : Machine}
    {next : α → Machine → List Point} {P : Point → Prop} :
    (∃ point ∈ pointsAfter evaluation machine next, P point) ↔
      ∃ value after, evaluation machine = .ok value after ∧
        ∃ point ∈ next value after, P point := by
  simp only [mem_pointsAfter]
  constructor
  · rintro ⟨point, ⟨value, after, hvalue, hpoint⟩, h⟩
    exact ⟨value, after, hvalue, point, hpoint, h⟩
  · rintro ⟨value, after, hvalue, point, hpoint, h⟩
    exact ⟨point, ⟨value, after, hvalue, hpoint⟩, h⟩

@[simp]
theorem Expression.points_nil (machine : Machine) : Expression.points [] machine = [] := rfl

theorem Expression.points_cons (tree : Expression) (trees : List Expression) (machine : Machine) :
    Expression.points (tree :: trees) machine =
      ⟨.expression tree, machine⟩ ::
        pointsAfter tree.evaluate machine fun _ after => Expression.points trees after := rfl

@[simp]
theorem Program.points_nil (machine : Machine) : Program.points [] machine = [] := rfl

theorem Program.points_cons (tree : Statement) (trees : Program) (machine : Machine) :
    Program.points (tree :: trees) machine =
      ⟨.statement tree, machine⟩ ::
        pointsAfter tree.execute machine fun _ after => Program.points trees after := rfl

/-- What `Task.perform` leaves has the `SameExtent`, so parts that follow each other may open
equally many frames. -/
theorem Task.sameExtent_perform (task : Task) : Moves SameExtent task.perform := by
  rcases task with tree | tree | ⟨function, arguments, line⟩
  · exact effectBound_sameExtent.moves_evaluate tree
  · exact effectBound_sameExtent.moves_execute tree
  · exact fun machine =>
      effectBound_sameExtent.moves_invoke machine.openFrames function arguments line machine

/-- The points of `tasks` are these tasks on machines of one extent. -/
theorem Task.mem_points {tasks : List Task} {machine : Machine} {point : Point}
    (h : point ∈ Task.points tasks machine) :
    point.task ∈ tasks ∧ SameExtent machine point.machine := by
  induction tasks generalizing machine with
  | nil => cases h
  | cons task tasks ih =>
    rcases List.mem_cons.mp h with rfl | hmem
    · exact ⟨List.mem_cons_self, refl_of SameExtent machine⟩
    · -- The task has given a value, on a machine of the same extent.
      obtain ⟨value, between, hresult, hmem⟩ := mem_pointsAfter.mp hmem
      have hextent := task.sameExtent_perform machine
      rw [after_of_ok hresult] at hextent
      obtain ⟨htask, hrest⟩ := ih hmem
      exact ⟨List.mem_cons_of_mem _ htask, trans_of SameExtent hextent hrest⟩

theorem mem_expressionPoints {trees : List Expression} {machine : Machine} {point : Point}
    (h : point ∈ Expression.points trees machine) :
    ∃ tree ∈ trees, point.task = .expression tree ∧ SameExtent machine point.machine := by
  obtain ⟨htask, hextent⟩ := Task.mem_points h
  obtain ⟨tree, htree, htask⟩ := List.mem_map.mp htask
  exact ⟨tree, htree, htask.symm, hextent⟩

theorem mem_programPoints {trees : Program} {machine : Machine} {point : Point}
    (h : point ∈ Program.points trees machine) :
    ∃ tree ∈ trees, point.task = .statement tree ∧ SameExtent machine point.machine := by
  obtain ⟨htask, hextent⟩ := Task.mem_points h
  obtain ⟨tree, htree, htask⟩ := List.mem_map.mp htask
  exact ⟨tree, htree, htask.symm, hextent⟩

/-- The height of the code of a task. The body of a function that is called does not count, as
the number of frames to open falls there. -/
def Task.height : Task → Nat
  | .expression tree => tree.height
  | .statement tree => tree.height
  | .call _ _ _ => 0

theorem Expression.height_le_heightAll {tree : Expression} {trees : List Expression}
    (h : tree ∈ trees) : tree.height ≤ Expression.heightAll trees := by
  induction trees with
  | nil => cases h
  | cons first rest ih =>
    rw [Expression.heightAll]
    rcases List.mem_cons.mp h with rfl | hrest
    · exact Nat.le_max_left _ _
    · exact Nat.le_trans (ih hrest) (Nat.le_max_right _ _)

/-- The statement that `part` is in is one of the body that `point` calls. -/
structure Point.EntersBody (point part : Point) : Prop where
  /-- A frame may be opened for the call. -/
  room : point.machine.depth < point.machine.depthLimit
  statement : ∃ function arguments line, point.task = .call function arguments line ∧
    ∃ tree ∈ function.body, part.task = .statement tree
  /-- The body runs in the frame of the call. -/
  depth : part.machine.depth = point.machine.depth + 1
  depthLimit : part.machine.depthLimit = point.machine.depthLimit

/-- A part is a lower piece of code in the same frame, or it `EntersBody`. -/
theorem Point.mem_parts {point part : Point} (h : part ∈ point.parts) :
    (SameExtent point.machine part.machine ∧ part.task.height < point.task.height) ∨
      point.EntersBody part := by
  obtain ⟨task, machine⟩ := point
  -- Expressions in a row are no higher than all of them together, and they keep the frames.
  have hexpressions {trees : List Expression} (hmem : part ∈ Expression.points trees machine) :
      SameExtent machine part.machine ∧ part.task.height ≤ Expression.heightAll trees := by
    obtain ⟨tree, htree, htask, hextent⟩ := mem_expressionPoints hmem
    rw [htask]
    exact ⟨hextent, Expression.height_le_heightAll htree⟩
  rcases task with tree | tree | ⟨function, arguments, line⟩
  · left
    rcases tree with n | text | ⟨name, line⟩ | ⟨op, left, right, line⟩ | items |
      ⟨name, arguments, line⟩
    · cases h
    · cases h
    · cases h
    · obtain ⟨hextent, hheight⟩ := hexpressions h
      refine ⟨hextent, ?_⟩
      show part.task.height < (Expression.binary op left right line).height
      rw [Expression.height]
      simp only [Expression.heightAll] at hheight
      omega
    · obtain ⟨hextent, hheight⟩ := hexpressions h
      refine ⟨hextent, ?_⟩
      show part.task.height < (Expression.list items).height
      rw [Expression.height]
      omega
    · rcases hfound : machine.functions.find? name with _ | function
      · rw [parts_call_of_find?_eq_none hfound] at h
        cases h
      by_cases hlength : arguments.length = function.arity
      · rw [parts_call_of_length_eq hfound hlength, List.mem_append] at h
        show _ ∧ part.task.height < (Expression.call name arguments line).height
        rw [Expression.height]
        rcases h with h | h
        · obtain ⟨hextent, hheight⟩ := hexpressions h
          exact ⟨hextent, by omega⟩
        · -- The call itself has no code, and its machine is the one behind the arguments.
          obtain ⟨values, between, hresult, hcall⟩ := mem_pointsAfter.mp h
          have hextent := sameExtent_evaluateAll arguments machine
          rw [after_of_ok hresult] at hextent
          rw [List.mem_singleton.mp hcall]
          exact ⟨hextent, Nat.add_pos_left Nat.two_pos _⟩
      · rw [parts_call_of_length_ne hfound hlength] at h
        cases h
  · left
    obtain ⟨operand, hoperand, rfl⟩ : ∃ operand, tree.operand? = some operand ∧
        ⟨.expression operand, machine.starting tree⟩ = part := by
      simpa [parts] using h
    refine ⟨⟨rfl, rfl⟩, ?_⟩
    rcases tree with ⟨name, e, line⟩ | ⟨e, line⟩ | ⟨name, line⟩ | ⟨name, e, line⟩ |
      ⟨name, parameters, body, line⟩ | ⟨e, line⟩ <;> cases hoperand <;>
      simp only [Task.height, Statement.height] <;> omega
  -- The body of a function may be as high as it likes, but it has one frame less to open.
  · right
    rcases Nat.lt_or_ge machine.depth machine.depthLimit with hroom | hlimit
    · rw [parts_call_of_lt_limit hroom] at h
      obtain ⟨tree, htree, htask, hextent⟩ := mem_programPoints h
      exact ⟨hroom, ⟨function, arguments, line, rfl, tree, htree, htask⟩, hextent.depth,
        hextent.depthLimit⟩
    · rw [parts_call_of_limit_le hlimit] at h
      cases h

/-- A part may open fewer frames than the point, or it is lower. This order makes
`Point.history` end. -/
theorem Point.parts_lt {point part : Point} (h : part ∈ point.parts) :
    Prod.Lex (· < ·) (· < ·) (part.machine.openFrames, part.task.height)
      (point.machine.openFrames, point.task.height) := by
  rcases Point.mem_parts h with ⟨hextent, hheight⟩ | hbody
  · rw [hextent.openFrames]
    exact .right _ hheight
  · refine .left _ _ ?_
    have hroom := hbody.room
    unfold Machine.openFrames
    rw [hbody.depth, hbody.depthLimit]
    omega

/-- To prove `motive` of all points it is enough to prove it of a point from its `parts`. -/
theorem Point.parts_induction {motive : Point → Prop}
    (h : ∀ point, (∀ part ∈ point.parts, motive part) → motive point) (point : Point) :
    motive point :=
  -- A part of a call may open fewer frames, and every other part is lower.
  h point fun part _ => Point.parts_induction h part
termination_by (point.machine.openFrames, point.task.height)
decreasing_by exact Point.parts_lt ‹_›

/-! ## Histories -/

/-- All points between the start and the end of `point`, in the order of their starts. -/
def Point.history (point : Point) : List Point :=
  point :: point.parts.attach.flatMap fun part => Point.history part.1
termination_by (point.machine.openFrames, point.task.height)
decreasing_by exact Point.parts_lt part.2

/-- The equation of `Point.history`, without the proofs that make it end. -/
theorem Point.history_eq (point : Point) :
    point.history = point :: point.parts.flatMap Point.history := by
  rw [Point.history, List.flatMap_subtype (g := Point.history) fun _ _ => rfl, List.unattach_attach]

theorem Point.mem_history_self (point : Point) : point ∈ point.history := by
  rw [Point.history_eq]
  exact List.mem_cons_self

theorem Point.mem_history_of_mem_parts {point part passed : Point} (hpart : part ∈ point.parts)
    (hpassed : passed ∈ part.history) : passed ∈ point.history := by
  rw [Point.history_eq]
  exact List.mem_cons_of_mem _ (List.mem_flatMap.mpr ⟨part, hpart, hpassed⟩)

/-- The history of `point` is closed under `parts`, and it has nothing that this does not lead
to. -/
theorem Point.mem_history_iff {point passed : Point} :
    passed ∈ point.history ↔
      passed = point ∨ ∃ before ∈ point.history, passed ∈ before.parts := by
  -- The history leads from the point into its parts, and the right side from its far end back.
  induction point using Point.parts_induction with
  | h point ih =>
    constructor
    · intro h
      rw [Point.history_eq] at h
      rcases List.mem_cons.mp h with rfl | h
      · exact .inl rfl
      · obtain ⟨part, hpart, hpassed⟩ := List.mem_flatMap.mp h
        rcases (ih part hpart).mp hpassed with rfl | ⟨before, hbefore, hmem⟩
        · exact .inr ⟨point, point.mem_history_self, hpart⟩
        · exact .inr ⟨before, Point.mem_history_of_mem_parts hpart hbefore, hmem⟩
    · rintro (rfl | ⟨before, hbefore, hmem⟩)
      · exact passed.mem_history_self
      · rw [Point.history_eq] at hbefore
        rcases List.mem_cons.mp hbefore with rfl | hbefore
        · exact Point.mem_history_of_mem_parts hmem passed.mem_history_self
        · obtain ⟨part, hpart, hbefore⟩ := List.mem_flatMap.mp hbefore
          exact Point.mem_history_of_mem_parts hpart
            ((ih part hpart).mpr (.inr ⟨before, hbefore, hmem⟩))

/-- All points that the run of `program` passes through. -/
def Program.history (program : Program) (machine : Machine) : List Point :=
  (program.points machine).flatMap Point.history

/-- The history of a run is closed under `parts`, and it has nothing that this does not lead
to from the points of its statements. -/
theorem Program.mem_history_iff {program : Program} {machine : Machine} {passed : Point} :
    passed ∈ program.history machine ↔
      passed ∈ program.points machine ∨
        ∃ before ∈ program.history machine, passed ∈ before.parts := by
  unfold Program.history
  simp only [List.mem_flatMap]
  constructor
  -- Every point of a history is its start or a part of one that comes before it.
  · rintro ⟨start, hstart, hpassed⟩
    rcases Point.mem_history_iff.mp hpassed with rfl | ⟨before, hbefore, hmem⟩
    · exact .inl hstart
    · exact .inr ⟨before, ⟨start, hstart, hbefore⟩, hmem⟩
  · rintro (hstart | ⟨before, ⟨start, hstart, hbefore⟩, hmem⟩)
    · exact ⟨passed, hstart, passed.mem_history_self⟩
    · exact ⟨start, hstart, Point.mem_history_iff.mpr (.inr ⟨before, hbefore, hmem⟩)⟩

/-- What holds at `point` and goes over from each point to its parts holds on the whole way. -/
theorem Point.history_induction {motive : Point → Prop}
    (h : ∀ point part, motive point → part ∈ point.parts → motive part) {point : Point}
    (hpoint : motive point) : ∀ passed ∈ point.history, motive passed := by
  induction point using Point.parts_induction with
  | h point ih =>
    intro passed hpassed
    rw [Point.history_eq] at hpassed
    rcases List.mem_cons.mp hpassed with rfl | hpassed
    · exact hpoint
    · obtain ⟨part, hpart, hmem⟩ := List.mem_flatMap.mp hpassed
      exact ih part hpart (h point part hpoint hpart) passed hmem

/-- What holds at the points of the statements of `program` and goes over from each point to
its parts holds at all points of the run. -/
theorem Program.history_induction {motive : Point → Prop} {program : Program} {machine : Machine}
    (hstart : ∀ point ∈ program.points machine, motive point)
    (h : ∀ point part, motive point → part ∈ point.parts → motive part) :
    ∀ point ∈ program.history machine, motive point := by
  intro point hpoint
  obtain ⟨start, hmem, hhistory⟩ := List.mem_flatMap.mp hpoint
  exact Point.history_induction h (hstart start hmem) point hhistory

end Scriptlet
