import Scriptlet.Proofs.Evaluation.Trail

/-!
# The log of a run

The log tells of the points that a run has passed through, in the order of their starts: of the
statements when they are started, of the calls when their frames are opened and of the definitions.
It tells of nothing else, and it tells of what has happened before a fault.

* `Point.chronicle` is what some points and all points on the way through them add to the log.
* `Evaluation.Logs` says what an evaluation adds to the log.
* `Mark.events` is what a mark of a trail adds to the log, and `Mark.Step.logs` is the step that
  `Path.logs` carries along the trail.
* `Mark.Step.events_cases`: a step adds the start of a statement, a definition, a call or nothing.
* `Program.log_after_run` is the result for whole runs.
-/

namespace Scriptlet

open Evaluation

variable {α : Type}

/-- What `points` and all points on the way through them add to the log, in order. -/
def Point.chronicle (points : List Point) : List Event :=
  (points.flatMap Point.history).flatMap Point.events

namespace Point

@[simp]
theorem chronicle_nil : chronicle [] = [] := rfl

/-- The chronicle of `point` starts with the point itself and goes on with its parts. -/
theorem chronicle_cons (point : Point) (points : List Point) :
    chronicle (point :: points) = point.events ++ (chronicle point.parts ++ chronicle points) := by
  unfold chronicle
  rw [List.flatMap_cons, List.flatMap_append, history_eq, List.flatMap_cons, List.append_assoc]

@[simp]
theorem chronicle_append (points points' : List Point) :
    chronicle (points ++ points') = chronicle points ++ chronicle points' := by
  unfold chronicle
  rw [List.flatMap_append, List.flatMap_append]

theorem chronicle_singleton (point : Point) :
    chronicle [point] = point.events ++ chronicle point.parts := by
  rw [chronicle_cons, chronicle_nil, List.append_nil]

end Point

namespace Evaluation

/-- On `machine` the evaluation adds `events` to the log, in order, and leaves the rest of it. -/
def Logs (evaluation : Evaluation α) (machine : Machine) (events : List Event) : Prop :=
  (evaluation.after machine).log = events.reverse ++ machine.log

/-- Two machines have the same log. -/
def SameLog (before after : Machine) : Prop :=
  after.log = before.log

instance : IsPreorder Machine SameLog where
  refl _ := rfl
  trans _ _ _ h h' := h'.trans h

/-! ## Steps that keep the log -/

theorem sameLog_bindName (name : String) (value : Value) : Moves SameLog (bindName name value) := by
  intro machine
  obtain ⟨globals, frames, hbind⟩ := machine.exists_bind_eq name value
  show (machine.bind name value).log = machine.log
  rw [hbind]

theorem sameLog_writeValue (value : Value) (line : Nat) :
    Moves SameLog (writeValue value line) := by
  intro machine
  rcases h : machine.output.writeLine value with ⟨output, _ | reason⟩
  · rw [after_of_ok (writeValue_of_taken h line)]
    rfl
  · rw [after_of_error (writeValue_of_refused h line)]
    rfl

theorem sameLog_readLine (line : Nat) : Moves SameLog (readLine line) := by
  intro machine
  rcases h : Input.readLine machine.input with ⟨error | text, input⟩
  · rw [after_of_error (readLine_of_error h line)]
    rfl
  · rw [after_of_ok (readLine_of_ok h line)]
    rfl

theorem sameLog_drawBelow (bound : Value) (line : Nat) :
    Moves SameLog (drawBelow bound line) := by
  rcases nonneg_or_drawBelow_eq_fail bound with ⟨n, hn, rfl⟩ | ⟨cause, hfail⟩
  · intro machine
    rw [after_of_ok (drawBelow_of_nonneg hn line machine)]
    rfl
  · rw [hfail]
    exact Moves.fail cause line

/-- What a statement does after it has evaluated its `operand?` is not logged. -/
theorem sameLog_finish {tree : Statement} {operand : Expression}
    (h : tree.operand? = some operand) (value : Value) : Moves SameLog (tree.finish value) := by
  rcases tree with ⟨name, e, line⟩ | ⟨e, line⟩ | ⟨name, line⟩ | ⟨name, e, line⟩ |
    ⟨name, parameters, body, line⟩ | ⟨e, line⟩ <;> cases h
  · exact sameLog_bindName name value
  · exact (sameLog_writeValue value line).bind fun _ => Moves.pure value
  · exact (sameLog_drawBelow value line).bind (sameLog_bindName name)
  · exact Moves.pure value

end Evaluation

/-! ## Marks -/

/-- What a mark adds to the log, in order. A point is logged when it starts. A definition has
more events than this one, and they are logged when it is made, at the end of its statement. -/
def Mark.events : Mark → List Event
  | .start point => point.events.take 1
  | .stop point => point.events.drop 1

theorem Point.drop_events_of_operand? {tree : Statement} {operand : Expression}
    (h : tree.operand? = some operand) (machine : Machine) :
    (Point.events ⟨.statement tree, machine⟩).drop 1 = [] := by
  rcases tree with ⟨name, e, line⟩ | ⟨e, line⟩ | ⟨name, line⟩ | ⟨name, e, line⟩ |
    ⟨name, parameters, body, line⟩ | ⟨e, line⟩ <;> cases h <;> rfl

/-- A statement whose operand has ended in a fault is not finished, so its end has no events. -/
theorem Mark.events_stop_of_evaluateOperand_error {tree : Statement} {machine between : Machine}
    {fault : Fault} (h : tree.evaluateOperand (machine.starting tree) = .error fault between) :
    (Mark.stop ⟨.statement tree, machine⟩).events = [] := by
  unfold Statement.evaluateOperand at h
  rcases hoperand : tree.operand? with _ | operand <;> rw [hoperand] at h
  · cases h
  · exact Point.drop_events_of_operand? hoperand machine

theorem Mark.events_start_call_of_lt_limit {machine : Machine}
    (h : machine.depth < machine.depthLimit) (function : Function) (arguments : List Value)
    (line : Nat) :
    (Mark.start ⟨.call function arguments line, machine⟩).events =
      [.calling function.name (machine.depth + 1)] := by
  show List.take 1 (ite _ _ _) = _
  rw [if_pos h]
  rfl

theorem Mark.events_start_call_of_limit_le {machine : Machine}
    (h : machine.depthLimit ≤ machine.depth) (function : Function) (arguments : List Value)
    (line : Nat) : (Mark.start ⟨.call function arguments line, machine⟩).events = [] := by
  show List.take 1 (ite _ _ _) = _
  rw [if_neg (Nat.not_lt.mpr h)]
  rfl

theorem Mark.events_stop_call (function : Function) (arguments : List Value) (line : Nat)
    (machine : Machine) : (Mark.stop ⟨.call function arguments line, machine⟩).events = [] := by
  show List.drop 1 (ite _ _ _) = _
  split <;> rfl

/-- A point with `events` behind its first one has no `parts`, so nothing is logged between
the first and the others. -/
theorem Point.drop_events_eq_nil_or (point : Point) :
    point.events.drop 1 = [] ∨ point.parts = [] := by
  obtain ⟨tree | tree | ⟨function, arguments, line⟩, machine⟩ := point
  · exact .inl rfl
  · rcases hoperand : tree.operand? with _ | operand
    · right
      rw [parts_statement, hoperand]
      rfl
    · exact .inl (drop_events_of_operand? hoperand machine)
  · exact .inl (Mark.events_stop_call function arguments line machine)

theorem Point.flatMap_events_trails {points : List Point}
    (h : ∀ point ∈ points, point.trail.flatMap Mark.events = chronicle [point]) :
    (trails points).flatMap Mark.events = chronicle points := by
  induction points with
  | nil => rfl
  | cons point points ih =>
    rw [List.forall_mem_cons] at h
    rw [trails_cons, List.flatMap_append, h.1, ih h.2, ← chronicle_append, List.singleton_append]

/-- The marks of `point.trail` add to the log what `Point.chronicle` tells of the point. -/
theorem Point.flatMap_events_trail (point : Point) :
    point.trail.flatMap Mark.events = chronicle [point] := by
  induction point using Point.parts_induction with
  | h point ih =>
    rw [trail_eq, List.flatMap_cons, List.flatMap_append, flatMap_events_trails ih,
      chronicle_singleton, List.flatMap_singleton]
    show point.events.take 1 ++ (chronicle point.parts ++ point.events.drop 1) = _
    rcases point.drop_events_eq_nil_or with hdrop | hparts
    · -- The point has one event at most, which comes first.
      have hevents := List.take_append_drop 1 point.events
      rw [hdrop, List.append_nil] at hevents
      rw [hdrop, List.append_nil, hevents]
    · rw [hparts, chronicle_nil, List.nil_append, List.take_append_drop, List.append_nil]

/-- What `Statement.finish` logs is what the `events` of the statement have behind the first
one: those of a definition. -/
theorem Statement.log_after_finish {tree : Statement} {machine between : Machine} {value : Value}
    (h : tree.evaluateOperand (machine.starting tree) = .ok value between) :
    ((tree.finish value).after between).log =
      ((Point.events ⟨.statement tree, machine⟩).drop 1).reverse ++ between.log := by
  rcases hoperand : tree.operand? with _ | operand
  · rcases tree with ⟨name, e, line⟩ | ⟨e, line⟩ | ⟨name, line⟩ | ⟨name, e, line⟩ |
      ⟨name, parameters, body, line⟩ | ⟨e, line⟩ <;> cases hoperand
    · have hread : Moves SameLog ((Statement.read name line).finish value) :=
        (sameLog_readLine line).bind fun text => sameLog_bindName name _
      exact hread between
    · -- Nothing has been evaluated, so the definition finds the functions of the start.
      cases h
      rw [after_finish_define]
      show Machine.log (if (machine.functions.find? name).isSome then _ else _) =
        (_ :: if (machine.functions.find? name).isSome then _ else _).reverse ++ _
      split <;> rfl
  · rw [Point.drop_events_of_operand? hoperand]
    exact sameLog_finish hoperand value between

/-- Every step adds the `events` of its mark to the log. -/
theorem Mark.Step.logs {mark : Mark} {before after : Machine} (h : mark.Step before after) :
    after.log = mark.events.reverse ++ before.log := by
  -- Only the end of a statement needs an argument; every other step logs what its mark says.
  cases h with
  | startExpression tree => rfl
  | stopExpression tree => rfl
  | startStatement tree => rfl
  | finish h => exact Statement.log_after_finish h
  | abandon h => rw [Mark.events_stop_of_evaluateOperand_error h, List.reverse_nil, List.nil_append]
  | enter hroom function values line =>
    rw [Mark.events_start_call_of_lt_limit hroom]
    rfl
  | leave _ function values line =>
    rw [Mark.events_stop_call]
    rfl
  | refuse hlimit function values line =>
    rw [Mark.events_start_call_of_limit_le hlimit]
    rfl
  | giveUp _ function values line =>
    rw [Mark.events_stop_call]
    rfl

theorem Path.logs {marks : List Mark} {before after : Machine} (h : Path before marks after) :
    after.log = (marks.flatMap Mark.events).reverse ++ before.log := by
  induction h with
  | nil _ => rfl
  | cons hstep _ ih =>
    rw [ih, hstep.logs, List.flatMap_cons, List.reverse_append, List.append_assoc]

/-- An `event` in the events of all `marks` is one of some `mark`, with the events of the
marks in front of it among the `earlier` ones. -/
theorem Mark.exists_of_flatMap_events {marks : List Mark} {earlier later : List Event}
    {event : Event} (h : marks.flatMap Mark.events = earlier ++ event :: later) :
    ∃ first mark last before behind, marks = first ++ mark :: last ∧
      mark.events = before ++ event :: behind ∧
      earlier = first.flatMap Mark.events ++ before ∧
      later = behind ++ last.flatMap Mark.events := by
  -- The event stands among those of the first mark or among those of the others.
  induction marks generalizing earlier with
  | nil => cases List.append_ne_nil_of_right_ne_nil _ (List.cons_ne_nil _ _) h.symm
  | cons mark marks ih =>
    rw [List.flatMap_cons, List.append_eq_append_iff] at h
    rcases h with ⟨earlier', rfl, hrest⟩ | ⟨events, hevents, hrest⟩
    · obtain ⟨first, mark', last, before, behind, rfl, hmark, rfl, rfl⟩ := ih hrest
      exact ⟨mark :: first, mark', last, before, behind, rfl, hmark,
        (List.append_assoc _ _ _).symm, rfl⟩
    · -- The events of this mark go up to the event, or they end in front of it.
      rcases List.cons_eq_append_iff.mp hrest with ⟨rfl, hnext⟩ | ⟨behind, rfl, rfl⟩
      · rw [List.append_nil] at hevents
        obtain ⟨first, mark', last, before, behind, rfl, hmark, hnil, rfl⟩ :=
          @ih [] hnext
        refine ⟨mark :: first, mark', last, before, behind, rfl, hmark, ?_, rfl⟩
        rw [List.flatMap_cons, List.append_assoc, ← hnil, List.append_nil, hevents]
      · exact ⟨[], mark, marks, earlier, behind, rfl, hevents, rfl, rfl⟩

/-- What a step logs: nothing, the start of a statement, a definition or a call. A definition
is logged as such when the statement is all that has happened since its `start`, and it is
logged as a redefinition when its name is known. -/
theorem Mark.Step.events_cases {mark : Mark} {before after : Machine}
    (h : mark.Step before after) :
    mark.events = [] ∨
      (∃ line depth statement, mark.events = [.executing line depth statement]) ∨
      (∃ name parameters body line start,
        mark = .stop ⟨.statement (.define name parameters body line), start⟩ ∧
        before = start.starting (.define name parameters body line) ∧
        mark.events = .defining name parameters.length ::
          if (start.functions.find? name).isSome then [.redefined name] else []) ∨
      ∃ function values line, mark = .start ⟨.call function values line, before⟩ ∧
        mark.events = [.calling function.name (before.depth + 1)] := by
  -- A step has events only at the start of a statement, at the end of a definition, and where a
  -- frame is opened.
  cases h with
  | startExpression _ _ => exact .inl rfl
  | stopExpression _ _ _ => exact .inl rfl
  | startStatement tree machine => exact .inr (.inl ⟨_, _, _, rfl⟩)
  | @finish tree start _ _ hoperand =>
    rcases tree with ⟨name, e, line⟩ | ⟨e, line⟩ | ⟨name, line⟩ | ⟨name, e, line⟩ |
      ⟨name, parameters, body, line⟩ | ⟨e, line⟩
    case define =>
      cases hoperand
      exact .inr (.inr (.inl ⟨name, parameters, body, line, start, rfl, rfl, rfl⟩))
    all_goals exact .inl rfl
  | abandon h => exact .inl (Mark.events_stop_of_evaluateOperand_error h)
  | enter hroom function values line =>
    exact .inr (.inr (.inr ⟨function, values, line, rfl,
      Mark.events_start_call_of_lt_limit hroom function values line⟩))
  | leave _ function values line after =>
    exact .inl (Mark.events_stop_call function values line _)
  | refuse hlimit function values line =>
    exact .inl (Mark.events_start_call_of_limit_le hlimit function values line)
  | giveUp _ function values line after =>
    exact .inl (Mark.events_stop_call function values line _)

/-! ## Runs -/

/-- To perform the task of a point adds the `Point.chronicle` of the point to the log. -/
theorem Point.logs (point : Point) :
    Logs point.task.perform point.machine (Point.chronicle [point]) := by
  rw [← flatMap_events_trail]
  exact point.path.logs

/-- What a run adds to the log are the `Point.events` of its history, in the order of their
starts. -/
theorem Program.log_after_run (program : Program) (machine : Machine) :
    (program.run.after machine).log =
      ((program.history machine).flatMap Point.events).reverse ++ machine.log := by
  have htrail : (program.trail machine).flatMap Mark.events =
      (program.history machine).flatMap Point.events :=
    Point.flatMap_events_trails fun point _ => point.flatMap_events_trail
  rw [← htrail]
  exact (program.path machine).logs

end Scriptlet
