import Scriptlet.Proofs.Evaluation.Log
import Scriptlet.Proofs.Evaluation.Origins
import Scriptlet.Proofs.Evaluation.Scopes

/-!
# Call depth

A run that starts outside all calls never has more frames active than the depth limit allows, and it
uses all of them: it fails at the limit only when it attempts a call that would need one more. The
body of that call is not entered.

* `Event.Within limit` says that the depths an event tells of are those of at most so many frames.
* `Program.ReachesCall` says that a run comes to a call whose arguments have been evaluated.
* `Program.depth_le_of_mem_history` is the invariant: the depth of every point is within the limit.
* `Program.run_of_reachesCall` and `Program.exists_reachesCall_of_run` are the two directions of
  what happens at the limit.
* `Program.run_keeps_within_depthLimit` is the result for whole runs.
-/

namespace Scriptlet

open Evaluation

variable {program : Program} {machine : Machine}

/-! ## Depths -/

/-- The depths that an event tells of are those of at most `limit` frames. A call has at least
the frame that is opened for it. -/
def Event.Within (limit : Nat) : Event → Prop
  | .executing _ depth _ => depth ≤ limit
  | .calling _ depth => 1 ≤ depth ∧ depth ≤ limit
  | .defining _ _ => True
  | .redefined _ => True

theorem Program.depthLimit_of_mem_history {point : Point} (h : point ∈ program.history machine) :
    point.machine.depthLimit = machine.depthLimit := by
  refine Program.history_induction
    (motive := fun point => point.machine.depthLimit = machine.depthLimit) ?_ ?_ point h
  · intro start hstart
    obtain ⟨tree, -, -, hextent⟩ := mem_programPoints hstart
    exact hextent.depthLimit
  · intro before part hlimit hpart
    rcases Point.mem_parts hpart with ⟨hextent, -⟩ | hbody
    · exact hextent.depthLimit.trans hlimit
    · exact hbody.depthLimit.trans hlimit

/-- At no point of a run that starts outside all calls more frames are active than
`depthLimit` allows. -/
theorem Program.depth_le_of_mem_history (hframes : machine.frames = []) {point : Point}
    (h : point ∈ program.history machine) : point.machine.depth ≤ point.machine.depthLimit := by
  refine Program.history_induction
    (motive := fun point => point.machine.depth ≤ point.machine.depthLimit) ?_ ?_ point h
  · intro start hstart
    obtain ⟨tree, -, -, hextent⟩ := mem_programPoints hstart
    have hdepth : machine.depth = 0 := congrArg List.length hframes
    rw [hextent.depth, hdepth]
    exact Nat.zero_le _
  · -- Only a call goes one frame deeper, and only when there is room for it.
    intro before part hdepth hpart
    rcases Point.mem_parts hpart with ⟨hextent, -⟩ | hbody
    · rw [hextent.depthLimit, hextent.depth]
      exact hdepth
    · rw [hbody.depthLimit, hbody.depth]
      exact hbody.room

theorem Point.within_of_mem_events {point : Point} {event : Event}
    (hdepth : point.machine.depth ≤ point.machine.depthLimit) (h : event ∈ point.events) :
    event.Within point.machine.depthLimit := by
  obtain ⟨tree | tree | ⟨function, arguments, line⟩, machine⟩ := point
  · cases h
  · rcases List.mem_cons.mp h with rfl | h
    · exact hdepth
    · -- A definition tells of no depth.
      rcases tree with ⟨name, e, line⟩ | ⟨e, line⟩ | ⟨name, line⟩ | ⟨name, e, line⟩ |
        ⟨name, parameters, body, line⟩ | ⟨e, line⟩ <;> try cases h
      · trivial
      · rename_i h
        split at h
        · cases List.mem_singleton.mp h
          trivial
        · cases h
  · unfold Point.events at h
    dsimp only at h
    split at h
    · rename_i hroom
      cases List.mem_singleton.mp h
      exact ⟨Nat.le_add_left 1 _, hroom⟩
    · cases h

/-! ## Calls -/

/-- A run reaches a call of `function` with `values` for its arguments, on the machine
`before`: it comes to the expression, finds a function of the name that takes as many
arguments, and has evaluated them. -/
def Program.ReachesCall (program : Program) (machine : Machine) (function : Function)
    (values : List Value) (line : Nat) (before : Machine) : Prop :=
  ∃ name arguments start,
    ⟨.expression (.call name arguments line), start⟩ ∈ program.history machine ∧
      start.functions.find? name = some function ∧ arguments.length = function.arity ∧
      Expression.evaluateAll arguments start = .ok values before

/-- Each attempt of a call among `parts` belongs to a call expression whose arguments have the
`values`. -/
theorem Point.exists_of_call_mem_parts {point : Point} {function : Function} {values : List Value}
    {line : Nat} {before : Machine} (h : ⟨.call function values line, before⟩ ∈ point.parts) :
    ∃ name arguments start, point = ⟨.expression (.call name arguments line), start⟩ ∧
      start.functions.find? name = some function ∧ arguments.length = function.arity ∧
      Expression.evaluateAll arguments start = .ok values before := by
  obtain ⟨task, machine⟩ := point
  -- Whatever consists of expressions only has no call among its parts.
  have hexpressions {trees : List Expression} :
      ⟨.call function values line, before⟩ ∉ Expression.points trees machine := by
    intro hmem
    obtain ⟨tree, -, htask, -⟩ := mem_expressionPoints hmem
    cases htask
  rcases task with tree | tree | ⟨callee, arguments, start⟩
  · rcases tree with n | text | ⟨name, start⟩ | ⟨op, left, right, start⟩ | items |
      ⟨name, arguments, start⟩
    · cases h
    · cases h
    · cases h
    · exact absurd h hexpressions
    · exact absurd h hexpressions
    · rcases hfound : machine.functions.find? name with _ | callee
      · rw [parts_call_of_find?_eq_none hfound] at h
        cases h
      by_cases hlength : arguments.length = callee.arity
      · rw [parts_call_of_length_eq hfound hlength, List.mem_append] at h
        obtain ⟨_, _, hvalues, hcall⟩ := mem_pointsAfter.mp (h.resolve_left hexpressions)
        cases List.mem_singleton.mp hcall
        exact ⟨name, arguments, machine, rfl, hfound, hlength, hvalues⟩
      · rw [parts_call_of_length_ne hfound hlength] at h
        cases h
  · rw [parts_statement, Option.mem_toList, Option.map_eq_some_iff] at h
    obtain ⟨operand, -, hpart⟩ := h
    cases hpart
  · rcases Point.mem_parts h with ⟨-, hheight⟩ | hbody
    · cases hheight
    · obtain ⟨_, _, _, -, tree, -, htask⟩ := hbody.statement
      cases htask

/-- The calls that `ReachesCall` speaks of are those among the points of the run. -/
theorem Program.reachesCall_iff {function : Function} {values : List Value} {line : Nat}
    {before : Machine} :
    program.ReachesCall machine function values line before ↔
      ⟨.call function values line, before⟩ ∈ program.history machine := by
  constructor
  · rintro ⟨name, arguments, start, hmem, hfound, hlength, hvalues⟩
    refine Program.mem_history_iff.mpr (.inr ⟨_, hmem, ?_⟩)
    rw [Point.parts_call_of_length_eq hfound hlength]
    exact List.mem_append_right _
      (mem_pointsAfter.mpr ⟨values, before, hvalues, List.mem_singleton_self _⟩)
  · intro h
    rcases Program.mem_history_iff.mp h with hstart | ⟨point, hpoint, hpart⟩
    · obtain ⟨tree, -, htask, -⟩ := mem_programPoints hstart
      cases htask
    · obtain ⟨name, arguments, start, rfl, hcall⟩ := Point.exists_of_call_mem_parts hpart
      exact ⟨name, arguments, start, hpoint, hcall⟩

/-- If `hroom` leaves a frame for it, the call is logged at the depth of that frame, and its
body is after it: all statements there are started at this depth. -/
theorem log_after_attempt {function : Function} {values : List Value} {line : Nat}
    {before : Machine} (hroom : before.depth < before.depthLimit) :
    ((function.attempt values line).after before).log =
        (.calling function.name (before.depth + 1) ::
          Point.chronicle (Point.parts ⟨.call function values line, before⟩)).reverse ++
            before.log ∧
      ∀ part ∈ Point.parts ⟨.call function values line, before⟩, ∃ tree ∈ function.body,
        part.task = .statement tree ∧
          part.events.head? =
            some (.executing tree.line (before.depth + 1) tree.description) := by
  constructor
  -- The chronicle of the attempt is its own event and then what its parts tell.
  · have hlogs := (Point.mk (.call function values line) before).logs
    have hevents : Point.events ⟨.call function values line, before⟩ =
        [.calling function.name (before.depth + 1)] := if_pos hroom
    rw [Point.chronicle_singleton, hevents] at hlogs
    exact hlogs
  · intro part hpart
    rw [Point.parts_call_of_lt_limit hroom] at hpart
    obtain ⟨tree, htree, htask, hextent⟩ := mem_programPoints hpart
    refine ⟨tree, htree, htask, ?_⟩
    obtain ⟨task, machine⟩ := part
    cases htask
    exact congrArg (fun depth => some (Event.executing tree.line depth tree.description))
      hextent.depth

/-! ## At the limit -/

/-- A call that is reached when no frame is left is where the run fails. Nothing has happened
since `before`, except that the frames of the active calls have been dropped. -/
theorem Program.run_of_reachesCall (hframes : machine.frames = []) {function : Function}
    {values : List Value} {line : Nat} {before : Machine}
    (h : program.ReachesCall machine function values line before)
    (hfull : before.depth = machine.depthLimit) :
    ∃ statement, program.run machine =
      .error ⟨.depthExceeded machine.depthLimit, line, statement⟩ { before with frames := [] } := by
  have hmem := Program.reachesCall_iff.mp h
  have hlimit : before.depthLimit = machine.depthLimit := Program.depthLimit_of_mem_history hmem
  have hresult : Point.result ⟨.call function values line, before⟩ =
      .error ⟨.depthExceeded before.depthLimit, line, none⟩ before :=
    attempt_of_limit_le (Nat.le_of_eq (hlimit.trans hfull.symm)) function values line
  -- On its way out the fault has only dropped frames, and none is left at the end.
  obtain ⟨fault, after, hrun, hsurfaces⟩ := Program.run_of_mem_history hmem hresult
  have hafter : after.frames = [] := by
    have hempty := Program.frames_after_run hframes program
    rwa [after_of_error hrun] at hempty
  obtain ⟨cause, faultLine, statement⟩ := fault
  obtain ⟨hcause, hline, hmachine⟩ := hsurfaces
  dsimp only at hcause hline
  rw [hcause, hline, hmachine, hafter] at hrun
  rw [← hlimit]
  exact ⟨statement, hrun⟩

/-- A run fails by `depthExceeded` only when it reaches a call for which no frame is left, and
the fault carries the limit of the machine. -/
theorem Program.exists_reachesCall_of_run {fault : Fault} {after : Machine} {limit : Nat}
    (h : program.run machine = .error fault after) (hcause : fault.cause = .depthExceeded limit) :
    limit = machine.depthLimit ∧ ∃ function values line before,
      program.ReachesCall machine function values line before ∧
        machine.depthLimit ≤ before.depth := by
  rcases Program.exists_raises_of_run h with
    ⟨point, hpoint, fault', after', hraises, hsurfaces⟩ | ⟨reason, -, rfl⟩
  · obtain ⟨⟨function, values, line, htask⟩, hfull, hlimit, -⟩ :=
      hraises.call_of_depthExceeded (hsurfaces.cause.symm.trans hcause)
    rw [Program.depthLimit_of_mem_history hpoint] at hfull hlimit
    obtain ⟨task, before⟩ := point
    cases htask
    exact ⟨hlimit, function, values, line, before, Program.reachesCall_iff.mpr hpoint, hfull⟩
  · -- A refused flush is another fault.
    cases hcause

/-! ## Runs -/

/-- **The depth limit holds in every run that starts outside all calls, and it is exact.** No
more frames than `machine.depthLimit` are active at any point of `program.history machine`, at
its start and at its end; the log tells of these points and of nothing else, and by
`Event.Within` of no other depths; a body is logged at the depth that was logged for its call.
The run ends outside all calls. It fails at the limit, which the fault carries, if and only if
it `ReachesCall` when all frames that are allowed are active; and then nothing has happened
since the arguments of this call were evaluated. -/
theorem Program.run_keeps_within_depthLimit (hframes : machine.frames = []) (program : Program) :
    (∀ point ∈ program.history machine,
      point.machine.depth ≤ machine.depthLimit ∧ point.after.depth ≤ machine.depthLimit) ∧
    (program.run.after machine).log =
      ((program.history machine).flatMap Point.events).reverse ++ machine.log ∧
    (∀ event ∈ (program.history machine).flatMap Point.events, event.Within machine.depthLimit) ∧
    (∀ function values line before, program.ReachesCall machine function values line before →
      before.depth < machine.depthLimit →
        ((function.attempt values line).after before).log =
            (.calling function.name (before.depth + 1) ::
              Point.chronicle (Point.parts ⟨.call function values line, before⟩)).reverse ++
                before.log ∧
          ∀ part ∈ Point.parts ⟨.call function values line, before⟩, ∃ tree ∈ function.body,
            part.task = .statement tree ∧
              part.events.head? =
                some (.executing tree.line (before.depth + 1) tree.description)) ∧
    (program.run.after machine).frames = [] ∧
    ((∃ fault after limit, program.run machine = .error fault after ∧
        fault.cause = .depthExceeded limit) ↔
      ∃ function values line before, program.ReachesCall machine function values line before ∧
        before.depth = machine.depthLimit) ∧
    (∀ function values line before, program.ReachesCall machine function values line before →
      before.depth = machine.depthLimit →
        ∃ statement, program.run machine =
          .error ⟨.depthExceeded machine.depthLimit, line, statement⟩
            { before with frames := [] }) := by
  -- The number of frames never passes the limit, as an attempt opens one only below it.
  have hdepth {point : Point} (hpoint : point ∈ program.history machine) :
      point.machine.depth ≤ machine.depthLimit := by
    rw [← Program.depthLimit_of_mem_history hpoint]
    exact Program.depth_le_of_mem_history hframes hpoint
  refine ⟨fun point hpoint => ⟨hdepth hpoint, ?_⟩, program.log_after_run machine, ?_, ?_,
    Program.frames_after_run hframes program, ⟨?_, ?_⟩, ?_⟩
  · have hextent : SameExtent point.machine point.after :=
      point.task.sameExtent_perform point.machine
    exact Nat.le_trans (Nat.le_of_eq hextent.depth) (hdepth hpoint)
  · intro event hevent
    obtain ⟨point, hpoint, hevent⟩ := List.mem_flatMap.mp hevent
    rw [← Program.depthLimit_of_mem_history hpoint]
    exact Point.within_of_mem_events (Program.depth_le_of_mem_history hframes hpoint) hevent
  · intro function values line before hreaches hroom
    have hmem := Program.reachesCall_iff.mp hreaches
    rw [← Program.depthLimit_of_mem_history hmem] at hroom
    exact log_after_attempt hroom
  -- The limit is reached or passed where the fault is raised, and it is never passed.
  · rintro ⟨fault, after, limit, hrun, hcause⟩
    obtain ⟨-, function, values, line, before, hreaches, hfull⟩ :=
      Program.exists_reachesCall_of_run hrun hcause
    exact ⟨function, values, line, before, hreaches,
      Nat.le_antisymm (hdepth (Program.reachesCall_iff.mp hreaches)) hfull⟩
  · rintro ⟨function, values, line, before, hreaches, hfull⟩
    obtain ⟨statement, hrun⟩ := Program.run_of_reachesCall hframes hreaches hfull
    exact ⟨_, _, _, hrun, rfl⟩
  · intro function values line before hreaches hfull
    exact Program.run_of_reachesCall hframes hreaches hfull

/-- A program that defines a function which does nothing but call itself, and calls it. -/
def Program.diving : Program :=
  [.define "dive" [] [.evaluate (.call "dive" [] 1) 1] 1, .evaluate (.call "dive" [] 2) 2]

/-- Where `Program.diving` is allowed two frames, the third call is one too many. -/
theorem diving_reaches_call_at_two_frames :
    (∃ statement after,
      Program.diving.run (.fresh .unlimited [] (.scripted []) 2) =
        .error ⟨.depthExceeded 2, 1, some statement⟩ after ∧ after.frames = []) ∧
    ∃ function values line before,
      Program.diving.ReachesCall (.fresh .unlimited [] (.scripted []) 2) function values line
        before ∧ before.depth = 2 := by
  have hempty : (Machine.fresh .unlimited [] (.scripted []) 2).frames = [] := rfl
  obtain ⟨-, -, -, -, hframes, hlimit, -⟩ :=
    Program.run_keeps_within_depthLimit hempty Program.diving
  exact ⟨⟨_, _, rfl, hframes⟩, hlimit.mp ⟨_, _, 2, rfl, rfl⟩⟩

end Scriptlet
