import Scriptlet.Proofs.Evaluation.Simulation

/-!
# Runs of programs of one shape

Programs that differ in their lines only do the same on machines whose functions differ in their
lines only. Each of the two runs is followed by one without lines, on a machine without a log; as
this one is the same for both, they end alike and have logged the same but for the lines.

* `Machine.SameShape` says that two machines differ in their logs and in the lines of their
  functions only.
* `Unlined start` is what a machine has in common with one without lines, where the log of the first
  has grown from `start`.
* `SameCourse` says that two runs have ended alike, on machines and with logs that differ in lines
  only.
* `Program.run_of_sameShape` is the result.
-/

namespace Scriptlet

open Evaluation

/-- Two machines have equal scopes, devices and limits, and functions that differ in their
lines only. Nothing is asked of their logs. -/
structure Machine.SameShape (first second : Machine) : Prop where
  globals : second.globals = first.globals
  frames : second.frames = first.frames
  functions : ∀ name, (second.functions.find? name).map (Function.mapLines fun _ => 0) =
    (first.functions.find? name).map (Function.mapLines fun _ => 0)
  output : second.output = first.output
  input : second.input = first.input
  words : second.words = first.words
  depthLimit : second.depthLimit = first.depthLimit

/-- The machine `unlined` is `machine` without lines. Its log tells of what has happened since
the log of `machine` was `start`. -/
structure Unlined (start : List Event) (machine unlined : Machine) : Prop where
  globals : unlined.globals = machine.globals
  frames : unlined.frames = machine.frames
  functions : ∀ name, unlined.functions.find? name =
    (machine.functions.find? name).map (Function.mapLines fun _ => 0)
  output : unlined.output = machine.output
  input : unlined.input = machine.input
  words : unlined.words = machine.words
  depthLimit : unlined.depthLimit = machine.depthLimit
  log : ∃ events, machine.log = events ++ start ∧
    unlined.log = events.map (Event.mapLine fun _ => 0)

/-- A machine and its `Unlined` counterpart keep in step. -/
theorem lockstep_unlined (start : List Event) : Lockstep (Unlined start) (· = fun _ => 0) where
  functions h name := by
    rw [h.functions]
    exact rel_map_mapLines _ _
  current h := by
    unfold Machine.current
    rw [h.globals, h.frames]
  depth h := congrArg List.length h.frames
  -- The logs grow together; only the lines in the events differ.
  record hf h event := by
    obtain ⟨events, hlog, hlog'⟩ := h.log
    refine ⟨h.globals, h.frames, h.functions, h.output, h.input, h.words, h.depthLimit,
      event :: events, congrArg (event :: ·) hlog, ?_⟩
    rw [hf]
    exact congrArg (Event.mapLine (fun _ => 0) event :: ·) hlog'
  bind {machine unlined} h name value := by
    obtain ⟨hglobals, hframes, hfunctions, houtput, hinput, hwords, hlimit, hlog⟩ := h
    unfold Machine.bind
    rw [hframes, hglobals]
    rcases machine.frames with _ | ⟨frame, frames⟩ <;>
      exact ⟨rfl, rfl, hfunctions, houtput, hinput, hwords, hlimit, hlog⟩
  define hf h function := by
    refine ⟨h.globals, h.frames, fun name => ?_, h.output, h.input, h.words, h.depthLimit, h.log⟩
    rw [FunctionTable.find?_define, FunctionTable.find?_define, h.functions, hf,
      Function.name_mapLines]
    split <;> rfl
  push h frame := ⟨h.globals, congrArg (frame :: ·) h.frames, h.functions, h.output, h.input,
    h.words, h.depthLimit, h.log⟩
  leave _ h _ _ := ⟨h.globals, congrArg List.tail h.frames, h.functions, h.output, h.input, h.words,
    h.depthLimit, h.log⟩
  output h := h.output
  input h := h.input
  words h := h.words
  depthLimit h := h.depthLimit
  write h _ := ⟨h.globals, h.frames, h.functions, rfl, h.input, h.words, h.depthLimit, h.log⟩
  read h _ := ⟨h.globals, h.frames, h.functions, h.output, rfl, h.words, h.depthLimit, h.log⟩
  draw h _ := ⟨h.globals, h.frames, h.functions, h.output, h.input, rfl, h.depthLimit, h.log⟩

/-- Two runs from `before` and `before'` have ended alike: the machines after them have the
`SameShape`, and the logs have grown by events that differ in their lines only. -/
structure SameCourse (before before' after after' : Machine) : Prop where
  shape : after.SameShape after'
  log : ∃ events events', after.log = events ++ before.log ∧ after'.log = events' ++ before'.log ∧
    events'.map (Event.mapLine fun _ => 0) = events.map (Event.mapLine fun _ => 0)

/-- Two machines that are the same `Unlined` have the same shape. -/
theorem Unlined.sameCourse {before before' after after' unlined : Machine}
    (h : Unlined before.log after unlined) (h' : Unlined before'.log after' unlined) :
    SameCourse before before' after after' := by
  obtain ⟨events, hlog, hunlined⟩ := h.log
  obtain ⟨events', hlog', hunlined'⟩ := h'.log
  -- Both machines have the same counterpart without lines, so they are compared with it.
  refine ⟨⟨?_, ?_, fun name => ?_, ?_, ?_, ?_, ?_⟩, events, events', hlog, hlog', ?_⟩
  · rw [← h'.globals, h.globals]
  · rw [← h'.frames, h.frames]
  · rw [← h'.functions, h.functions]
  · rw [← h'.output, h.output]
  · rw [← h'.input, h.input]
  · rw [← h'.words, h.words]
  · rw [← h'.depthLimit, h.depthLimit]
  · rw [← hunlined', hunlined]

/-- A run on `machine` agrees with the run of the program without lines on `unlined`. -/
theorem agree_run_unlined {machine unlined : Machine} (h : Unlined machine.log machine unlined)
    (program : Program) :
    (Lockstep.pairing (Unlined machine.log) (· = fun _ => 0)).Agree (program.run machine)
      (Program.run (Program.mapLines (fun _ => 0) program) unlined) :=
  (lockstep_unlined machine.log).agree_run rfl ⟨fun _ => 0, rfl, rfl⟩ program h

/-- Programs of the `SameShape` do the same on machines of the `SameShape`: they give the same
value, or faults of the same cause in the same statement. The machines afterwards and what has
been logged differ in lines only, by `SameCourse`. Both runs are compared with the one without
lines. -/
theorem Program.run_of_sameShape {program program' : Program}
    (hprogram : program.SameShape program')
    {machine machine' : Machine} (h : machine.SameShape machine') :
    match program.run machine, program'.run machine' with
    | .ok value after, .ok value' after' =>
      value' = value ∧ SameCourse machine machine' after after'
    | .error fault after, .error fault' after' =>
      (fault'.cause = fault.cause ∧ fault'.statement = fault.statement) ∧
        SameCourse machine machine' after after'
    | _, _ => False := by
  let unlined : Machine :=
    { machine with functions := machine.functions.mapLines fun _ => 0, log := [] }
  have hfirst : Unlined machine.log machine unlined :=
    ⟨rfl, rfl, machine.functions.find?_mapLines _, rfl, rfl, rfl, rfl, [], rfl, rfl⟩
  have hsecond : Unlined machine'.log machine' unlined := by
    refine ⟨h.globals.symm, h.frames.symm, fun name => ?_, h.output.symm, h.input.symm,
      h.words.symm, h.depthLimit.symm, [], rfl, rfl⟩
    rw [h.functions]
    exact machine.functions.find?_mapLines _ name
  -- Both runs are followed by the same run without lines.
  have hagree := agree_run_unlined hfirst program
  have hagree' := agree_run_unlined hsecond program'
  rw [hprogram] at hagree
  rcases Lockstep.agree_cases hagree with
    ⟨value, after, common, hrun, hcommon, hafter⟩ |
    ⟨fault, _, after, common, rfl, hrun, hcommon, hafter⟩ <;>
    rcases Lockstep.agree_cases hagree' with
      ⟨value', after', common', hrun', hcommon', hafter'⟩ |
      ⟨fault', _, after', common', rfl, hrun', hcommon', hafter'⟩ <;>
    rw [hcommon] at hcommon'
  · cases hcommon'
    rw [hrun, hrun']
    exact ⟨rfl, hafter.sameCourse hafter'⟩
  · cases hcommon'
  · cases hcommon'
  · obtain ⟨hfault, rfl⟩ := EStateM.Result.error.inj hcommon'
    rw [hrun, hrun']
    exact ⟨⟨(congrArg Fault.cause hfault).symm, (congrArg Fault.statement hfault).symm⟩,
      hafter.sameCourse hafter'⟩

end Scriptlet
