import Scriptlet.Proofs.Evaluation.Points
import Scriptlet.Proofs.Evaluation.Simulation

/-!
# Settings of a machine

The output and the depth limit are settings of a machine: a program does not see them, it only runs
into them. Two runs under two settings do the same step by step, except where a line is written and
where a frame is opened.

* `Setting` is a change of the settings, for machines whose settings are proper.
* `Setting.pairing` pairs a run with the one under the changed settings, and `Setting.likeness` says
  that a program cannot tell their machines apart.
* `Setting.Commutes` says of an evaluation that it does the same under the changed settings.
* `Setting.Gives` and `Setting.Carries` say that what gives a value gives it under the changed
  settings too. `Simulation.carries` proves it, and `Setting.Carries.mem_history` concludes that all
  points of a run are points of the run under the changed settings.
-/

namespace Scriptlet

open Evaluation Pairing

variable {α β : Type}

/-- A change of the output and of the depth limit, for machines for which these are proper. -/
structure Setting where
  output : Sink → Sink
  depthLimit : Nat → Nat
  proper : Sink → Nat → Prop

namespace Setting

/-- The machine with its settings changed by `S`. -/
def apply (S : Setting) (machine : Machine) : Machine :=
  { machine with output := S.output machine.output, depthLimit := S.depthLimit machine.depthLimit }

/-- The settings of `machine` are proper for `S`. -/
def Proper (S : Setting) (machine : Machine) : Prop :=
  S.proper machine.output machine.depthLimit

/-- The pairing of two runs of one program, the second one under settings changed by `S`. What
is known once they have parted is left open: `parted` and `onward`. -/
def pairing (S : Setting) (parted : Fault → Machine → Machine → Prop)
    (onward : Machine → Machine → Prop) : Pairing where
  together machine machine' := S.Proper machine ∧ machine' = S.apply machine
  relabels := (· = id)
  parted := parted
  onward := onward

instance {S : Setting} {parted : Fault → Machine → Machine → Prop}
    {onward : Machine → Machine → Prop} [IsPreorder Machine onward] :
    IsPreorder Machine (S.pairing parted onward).onward :=
  inferInstanceAs (IsPreorder Machine onward)

variable {S : Setting}

theorem apply_bind (S : Setting) (machine : Machine) (name : String) (value : Value) :
    (S.apply machine).bind name value = S.apply (machine.bind name value) := by
  obtain ⟨globals, frames, functions, output, input, words, depthLimit, log⟩ := machine
  rcases frames with _ | ⟨frame, frames⟩ <;> rfl

theorem Proper.bind {machine : Machine} (h : S.Proper machine) (name : String) (value : Value) :
    S.Proper (machine.bind name value) := by
  obtain ⟨globals, frames, hbind⟩ := machine.exists_bind_eq name value
  rw [hbind]
  exact h

/-- Machines under two settings look alike: no field of `Likeness` mentions the output or the
depth limit. -/
theorem likeness (S : Setting) :
    Likeness (fun machine machine' => S.Proper machine ∧ machine' = S.apply machine) (· = id) where
  functions h name := by
    rw [h.2]
    exact rel_self _
  current h := by rw [h.2]; rfl
  depth h := by rw [h.2]; rfl
  record hf h event := by
    rw [h.2, hf, Event.mapLine_id]
    exact ⟨h.1, rfl⟩
  bind {machine _} h name value := by
    rw [h.2]
    exact ⟨h.1.bind name value, S.apply_bind machine name value⟩
  define hf h function := by
    rw [h.2, hf, Function.mapLines_id]
    exact ⟨h.1, rfl⟩
  push h frame := by
    rw [h.2]
    exact ⟨h.1, rfl⟩
  leave _ h _ _ := by
    rw [h.2]
    exact ⟨h.1, rfl⟩

/-! ## Evaluations that do not look at the settings -/

/-- The evaluation does the same on `machine` and on `S.apply machine`, and it leaves machines
that are `Proper` for `S` so. -/
def Commutes (S : Setting) (evaluation : Evaluation α) : Prop :=
  ∀ machine, match evaluation machine with
    | .ok value after => evaluation (S.apply machine) = .ok value (S.apply after) ∧
      (S.Proper machine → S.Proper after)
    | .error fault after => evaluation (S.apply machine) = .error fault (S.apply after) ∧
      (S.Proper machine → S.Proper after)

/-- An evaluation that `Commutes` with `S` keeps to every pairing of `S`. It never parts. -/
theorem Commutes.tracks {parted : Fault → Machine → Machine → Prop}
    {onward : Machine → Machine → Prop} {evaluation : Evaluation α} (h : S.Commutes evaluation)
    (hmoves : Moves onward evaluation) :
    (S.pairing parted onward).Tracks evaluation evaluation := by
  refine ⟨fun machine machine' ⟨hproper, hmachine⟩ => ?_, hmoves⟩
  have hcommutes := h machine
  rw [hmachine]
  rcases hresult : evaluation machine with ⟨value, after⟩ | ⟨fault, after⟩ <;>
    rw [hresult] at hcommutes <;> rw [hcommutes.1]
  · exact ⟨rfl, hcommutes.2 hproper, rfl⟩
  · exact .inl ⟨⟨id, rfl, rfl⟩, hcommutes.2 hproper, rfl⟩

theorem commutes_readLine (S : Setting) (line : Nat) : S.Commutes (readLine line) := by
  intro machine
  rcases h : Input.readLine machine.input with ⟨error | text, input⟩
  · rw [readLine_of_error h]
    exact ⟨readLine_of_error (by exact h) line, id⟩
  · rw [readLine_of_ok h]
    exact ⟨readLine_of_ok (by exact h) line, id⟩

theorem commutes_drawBelow (S : Setting) (bound : Value) (line : Nat) :
    S.Commutes (drawBelow bound line) := by
  intro machine
  rcases nonneg_or_drawBelow_eq_fail bound with ⟨n, hn, rfl⟩ | ⟨cause, hfail⟩
  · rw [drawBelow_of_nonneg hn]
    exact ⟨drawBelow_of_nonneg hn line _, id⟩
  · rw [hfail]
    exact ⟨rfl, id⟩

/-- A flush does not look at the settings, if `S.output` leaves `flushRefusal` as it is. -/
theorem commutes_flush (h : ∀ sink, (S.output sink).flushRefusal = sink.flushRefusal) :
    S.Commutes flush := by
  intro machine
  have hflush : (S.apply machine).output.flushRefusal = machine.output.flushRefusal :=
    h machine.output
  rcases hrefusal : machine.output.flushRefusal with _ | reason <;> rw [hrefusal] at hflush
  · rw [flush_of_not_refused hrefusal]
    exact ⟨flush_of_not_refused hflush, id⟩
  · rw [flush_of_refused hrefusal]
    exact ⟨flush_of_refused hflush, id⟩

/-- When every step keeps to a pairing of settings, runs do. The second run has `extra` frames
more to open. -/
theorem agree_run {parted : Fault → Machine → Machine → Prop}
    {onward : Machine → Machine → Prop} [IsPreorder Machine onward] {extra : Nat}
    (simulation : Simulation (S.pairing parted onward) extra)
    (hflush : ∀ sink, (S.output sink).flushRefusal = sink.flushRefusal) {machine : Machine}
    (h : S.Proper machine) (hopen : (S.apply machine).openFrames = machine.openFrames + extra)
    (program : Program) :
    (S.pairing parted onward).Agree (program.run machine) (program.run (S.apply machine)) := by
  have hmoves : Moves onward flush := fun machine => by
    rw [after_flush]
    exact refl_of onward machine
  have hagree :=
    simulation.agree_run rfl ((commutes_flush hflush).tracks hmoves) program ⟨h, rfl⟩ hopen
  rwa [Program.mapLines_id] at hagree

/-! ## Values under two settings -/

/-- When `evaluation` gives a value under proper settings, it gives the same under the changed
settings, and it leaves proper ones. -/
def Gives (S : Setting) (evaluation : Evaluation α) : Prop :=
  ∀ machine value after, S.Proper machine → evaluation machine = .ok value after →
    evaluation (S.apply machine) = .ok value (S.apply after) ∧ S.Proper after

theorem Gives.pure (value : α) : S.Gives (Pure.pure value : Evaluation α) := by
  intro machine _ _ h hresult
  cases hresult
  exact ⟨rfl, h⟩

theorem Gives.bind {first : Evaluation α} {second : α → Evaluation β} (hfirst : S.Gives first)
    (hsecond : ∀ value, S.Gives (second value)) : S.Gives (first >>= second) := by
  intro machine value after h hresult
  rcases hbetween : first machine with ⟨found, between⟩ | ⟨fault, between⟩
  · rw [bind_of_ok hbetween] at hresult
    obtain ⟨hfound, hproper⟩ := hfirst machine found between h hbetween
    rw [bind_of_ok hfound]
    exact hsecond found between value after hproper hresult
  · rw [bind_of_error hbetween] at hresult
    cases hresult

/-! ## Points under two settings -/

/-- The point under settings changed by `S`. -/
def applyPoint (S : Setting) (point : Point) : Point :=
  ⟨point.task, S.apply point.machine⟩

/-- Every task that gives a value on a machine gives it on `S.apply` of the machine too. Calls
are limited as before. -/
structure Carries (S : Setting) : Prop where
  depthLimit : ∀ limit, S.depthLimit limit = limit
  perform : ∀ task : Task, S.Gives task.perform

namespace Carries

variable (carries : S.Carries)
include carries

theorem gives_evaluateAll (trees : List Expression) : S.Gives (Expression.evaluateAll trees) := by
  induction trees with
  | nil => exact .pure []
  | cons tree trees ih =>
    rw [evaluateAll_cons]
    exact .bind (carries.perform (.expression tree)) fun value => ih.bind fun values => .pure _

/-- Tasks in a row have their points under the settings changed by `S`, since a point comes
only behind tasks that gave values. -/
theorem mem_points {tasks : List Task} {machine : Machine} {point : Point} (h : S.Proper machine)
    (hpoint : point ∈ Task.points tasks machine) :
    S.applyPoint point ∈ Task.points tasks (S.apply machine) ∧ S.Proper point.machine := by
  induction tasks generalizing machine with
  | nil => cases hpoint
  | cons task tasks ih =>
    rcases List.mem_cons.mp hpoint with rfl | hpoint
    · exact ⟨List.mem_cons_self, h⟩
    · obtain ⟨value, between, hresult, hpoint⟩ := mem_pointsAfter.mp hpoint
      obtain ⟨hresult', hbetween⟩ := carries.perform task machine value between h hresult
      obtain ⟨hmem, hproper⟩ := ih hbetween hpoint
      exact ⟨List.mem_cons_of_mem _ (mem_pointsAfter.mpr ⟨value, _, hresult', hmem⟩), hproper⟩

/-- Under the settings changed by `S`, a point has its `parts` there, maybe besides others. -/
theorem mem_parts {point part : Point} (h : S.Proper point.machine) (hpart : part ∈ point.parts) :
    S.applyPoint part ∈ (S.applyPoint point).parts ∧ S.Proper part.machine := by
  -- A part comes after others that have given values, and these give them on both sides.
  obtain ⟨tree | tree | ⟨function, arguments, line⟩, machine⟩ := point
  · rcases tree with n | text | ⟨name, line⟩ | ⟨op, left, right, line⟩ | items |
      ⟨name, arguments, line⟩
    · cases hpart
    · cases hpart
    · cases hpart
    · exact carries.mem_points h hpart
    · exact carries.mem_points h hpart
    · rcases hfound : machine.functions.find? name with _ | function
      · rw [Point.parts_call_of_find?_eq_none hfound] at hpart
        cases hpart
      by_cases hlength : arguments.length = function.arity
      · have hfound' : (S.apply machine).functions.find? name = some function := hfound
        rw [Point.parts_call_of_length_eq hfound hlength] at hpart
        rw [applyPoint, Point.parts_call_of_length_eq hfound' hlength]
        rcases List.mem_append.mp hpart with hpart | hpart
        · obtain ⟨hmem, hproper⟩ := carries.mem_points h hpart
          exact ⟨List.mem_append_left _ hmem, hproper⟩
        · obtain ⟨values, between, hresult, hcall⟩ := mem_pointsAfter.mp hpart
          obtain ⟨hresult', hbetween⟩ :=
            carries.gives_evaluateAll arguments machine values between h hresult
          rw [List.mem_singleton.mp hcall]
          exact ⟨List.mem_append_right _
            (mem_pointsAfter.mpr ⟨values, _, hresult', List.mem_singleton_self _⟩), hbetween⟩
      · rw [Point.parts_call_of_length_ne hfound hlength] at hpart
        cases hpart
  · rw [Point.parts_statement, Option.mem_toList, Option.map_eq_some_iff] at hpart
    obtain ⟨operand, hoperand, rfl⟩ := hpart
    rw [applyPoint, Point.parts_statement, hoperand]
    exact ⟨List.mem_cons_self, h⟩
  · rcases Nat.lt_or_ge machine.depth machine.depthLimit with hroom | hlimit
    · have hroom' : (S.apply machine).depth < (S.apply machine).depthLimit := by
        show machine.depth < S.depthLimit machine.depthLimit
        rwa [carries.depthLimit]
      rw [Point.parts_call_of_lt_limit hroom] at hpart
      rw [applyPoint, Point.parts_call_of_lt_limit hroom']
      have hentering : S.Proper (machine.entering function arguments) := h
      exact carries.mem_points hentering hpart
    · rw [Point.parts_call_of_limit_le hlimit] at hpart
      cases hpart

/-- Under the settings changed by `S`, a run has the points of its `history` there, maybe
besides others. -/
theorem mem_history {program : Program} {machine : Machine} (h : S.Proper machine) :
    ∀ point ∈ program.history machine,
      S.applyPoint point ∈ program.history (S.apply machine) ∧ S.Proper point.machine := by
  refine Program.history_induction (fun point hpoint => ?_) fun point part hbefore hpart => ?_
  · obtain ⟨hmem, hproper⟩ := carries.mem_points h hpoint
    exact ⟨Program.mem_history_iff.mpr (.inl hmem), hproper⟩
  · obtain ⟨hmem, hproper⟩ := hbefore
    obtain ⟨hpart', hproper'⟩ := carries.mem_parts hproper hpart
    exact ⟨Program.mem_history_iff.mpr (.inr ⟨_, hmem, hpart'⟩), hproper'⟩

end Carries

end Setting

/-- What `S.pairing` tracks gives its values under the settings changed by `S`, where these
are `Proper`. -/
theorem Pairing.Tracks.ok_of_proper {S : Setting} {parted : Fault → Machine → Machine → Prop}
    {onward : Machine → Machine → Prop} {first second : Evaluation α}
    (h : (S.pairing parted onward).Tracks first second) {machine after : Machine} {value : α}
    (hproper : S.Proper machine) (hresult : first machine = .ok value after) :
    second (S.apply machine) = .ok value (S.apply after) ∧ S.Proper after := by
  have hagree := h.agree machine (S.apply machine) ⟨hproper, rfl⟩
  rw [hresult] at hagree
  rcases hresult' : second (S.apply machine) with ⟨value', after'⟩ | ⟨fault', after'⟩ <;>
    rw [hresult'] at hagree
  · obtain ⟨rfl, hafter, rfl⟩ := hagree
    exact ⟨rfl, hafter⟩
  · exact hagree.elim

/-- When every step keeps to a pairing of `S`, then every task that gives a value gives it
under the changed settings. -/
theorem Simulation.carries {S : Setting} {parted : Fault → Machine → Machine → Prop}
    {onward : Machine → Machine → Prop} [IsPreorder Machine (S.pairing parted onward).onward]
    (simulation : Simulation (S.pairing parted onward) 0)
    (hlimit : ∀ limit, S.depthLimit limit = limit) : S.Carries where
  depthLimit := hlimit
  perform task machine value after hproper hresult := by
    -- Calls are limited as before, so both sides may open equally many frames.
    have hopen : (S.apply machine).openFrames = machine.openFrames + 0 := by
      show S.depthLimit machine.depthLimit - machine.depth = _
      rw [hlimit]
      rfl
    have hcalls := simulation.tracksCalls_invoke machine.openFrames
    rcases task with tree | tree | ⟨function, arguments, line⟩
    · have htracks := simulation.tracks_evaluateWith hcalls rfl tree
      rw [Expression.mapLines_id, ← hopen] at htracks
      exact htracks.ok_of_proper hproper hresult
    · have htracks := simulation.tracks_executeWith hcalls rfl tree
      rw [Statement.mapLines_id, ← hopen] at htracks
      exact htracks.ok_of_proper hproper hresult
    · have htracks := hcalls.tracks rfl rfl function arguments line
      rw [Function.mapLines_id, ← hopen] at htracks
      exact htracks.ok_of_proper hproper hresult

end Scriptlet
