import Scriptlet.Proofs.Evaluation.CallDepth
import Scriptlet.Proofs.Evaluation.Setting

/-!
# Raising the depth limit

A run that fits within a depth limit is the same under every higher one. The limit is only looked at
when a call finds no frame left; up to there the two runs do the same, and there the run under the
lower limit ends in a fault, which nothing swallows. The run under the higher limit goes on alone;
it can then only write more and read more.

* `Machine.withDepthLimit` is a machine with another depth limit.
* `Continues` says that a machine may follow another one: more is written, and more is read.
* `raising` is the pairing of two runs under two limits, and `simulation_raising` says that every
  step keeps to it.
* `Program.run_withDepthLimit` is the result for whole runs.
-/

namespace Scriptlet

open Evaluation Pairing

variable {α : Type} {limit limit' : Nat}

/-- The machine with `limit` as its depth limit. -/
def Machine.withDepthLimit (machine : Machine) (limit : Nat) : Machine :=
  { machine with depthLimit := limit }

/-! ## What a run can only add to -/

/-- What was written `before` is a prefix of what is written `after`, and what is left to be
read afterwards is a suffix of what was left before. -/
structure Continues (before after : Machine) : Prop where
  output : ∃ more, after.output.written = before.output.written ++ more
  input : ∃ more, before.input = more ++ after.input

instance : IsPreorder Machine Continues where
  refl machine := ⟨⟨.empty, ByteArray.append_empty.symm⟩, ⟨[], rfl⟩⟩
  trans first second third h h' := by
    obtain ⟨⟨written, hwritten⟩, ⟨read, hread⟩⟩ := h
    obtain ⟨⟨written', hwritten'⟩, ⟨read', hread'⟩⟩ := h'
    refine ⟨⟨written ++ written', ?_⟩, ⟨read ++ read', ?_⟩⟩
    · rw [hwritten', hwritten, ByteArray.append_assoc]
    · rw [hread, hread', List.append_assoc]

theorem continues_of_eq {before after : Machine} (houtput : after.output = before.output)
    (hinput : after.input = before.input) : Continues before after :=
  ⟨⟨.empty, by rw [houtput, ByteArray.append_empty]⟩, ⟨[], by rw [hinput]; rfl⟩⟩

theorem Sink.exists_written_writeLine (sink : Sink) (value : Value) :
    ∃ more, (sink.writeLine value).1.written = sink.written ++ more := by
  unfold Sink.writeLine
  dsimp only
  split
  · exact ⟨_, rfl⟩
  · split
    · exact ⟨_, rfl⟩
    · exact ⟨_, rfl⟩

theorem Input.exists_eq_append_readLine (input : List UInt8) :
    ∃ more, input = more ++ (Input.readLine input).2 := by
  have hsplit := Input.splitLine_append input
  unfold Input.readLine
  split
  · rename_i hempty
    exact ⟨[], List.isEmpty_iff.mp hempty⟩
  · dsimp only
    split
    · exact ⟨_, hsplit.symm⟩
    · exact ⟨_, hsplit.symm⟩

/-- Evaluation only adds to what is written and to what is read, so `Continues` bounds all of
it. -/
theorem effectBound_continues : EffectBound Continues Continues where
  action_of_value _ _ h := h
  record _ _ := continues_of_eq rfl rfl
  write machine written := ⟨machine.output.exists_written_writeLine written, ⟨[], rfl⟩⟩
  read machine := ⟨⟨.empty, ByteArray.append_empty.symm⟩,
    Input.exists_eq_append_readLine machine.input⟩
  draw _ _ := continues_of_eq rfl rfl
  define _ _ := continues_of_eq rfl rfl
  bind machine name value := by
    obtain ⟨globals, frames, hbind⟩ := machine.exists_bind_eq name value
    rw [hbind]
    exact continues_of_eq rfl rfl
  frame _ _ _ h := ⟨h.output, h.input⟩

/-! ## Two limits -/

/-- Two evaluations under two limits. They part when the first one fails at its `limit`; from
then on the second one `Continues` what the first one has done. -/
def raising (limit limit' : Nat) : Pairing where
  together machine machine' := machine.depthLimit = limit ∧ machine' = machine.withDepthLimit limit'
  relabels := (· = id)
  parted fault after after' := fault.cause = .depthExceeded limit ∧ Continues after after'
  onward := Continues

theorem parting_raising : (raising limit limit').Parting where
  effect := effectBound_continues
  onward h honward := ⟨h.1, trans_of Continues h.2 honward⟩
  within _ h := h
  pop h := ⟨h.1, h.2.output, h.2.input⟩

/-- The setting that the second one of these evaluations has: everything as it is, and
`limit'` for the depth limit. -/
def limiting (limit limit' : Nat) : Setting where
  output := id
  depthLimit _ := limit'
  proper _ depthLimit := depthLimit = limit

/-- The pairing `raising` is that of the setting `limiting`, so its step lemmas come from
there. -/
theorem raising_eq_pairing (limit limit' : Nat) :
    raising limit limit' = (limiting limit limit').pairing
      (fun fault after after' => fault.cause = .depthExceeded limit ∧ Continues after after')
      Continues := rfl

theorem commutes_writeValue_limiting (value : Value) (line : Nat) :
    (limiting limit limit').Commutes (writeValue value line) := by
  intro machine
  rcases h : machine.output.writeLine value with ⟨output, _ | reason⟩
  · rw [writeValue_of_taken h]
    exact ⟨writeValue_of_taken (by exact h) line, id⟩
  · rw [writeValue_of_refused h]
    exact ⟨writeValue_of_refused (by exact h) line, id⟩

instance : IsPreorder Machine (raising limit limit').onward :=
  inferInstanceAs (IsPreorder Machine Continues)

/-- Every step keeps to the pairing of two limits, however many `extra` frames the second
evaluation may open. -/
theorem simulation_raising (extra : Nat) : Simulation (raising limit limit') extra where
  toParting := parting_raising
  toLikeness := (limiting limit limit').likeness
  write hf value line := by
    rw [hf, id]
    exact (commutes_writeValue_limiting value line).tracks
      (effectBound_continues.moves_writeValue value line)
  read hf line := by
    rw [hf, id]
    exact ((limiting limit limit').commutes_readLine line).tracks
      (effectBound_continues.moves_readLine line)
  draw hf bound line := by
    rw [hf, id]
    exact ((limiting limit limit').commutes_drawBelow bound line).tracks
      (effectBound_continues.moves_drawBelow bound line)
  exhausted hf hg function arguments line := by
    refine ⟨fun machine machine' h => ?_, effectBound_continues.moves_invoke _ _ _ _⟩
    -- The first evaluation fails here; whatever the second one does continues it.
    refine Tracks.agree_of_parted parting_raising ⟨?_, ?_⟩
      (effectBound_continues.moves_invoke _ _ _ _)
    · exact congrArg Fault.Cause.depthExceeded h.1
    · rw [h.2]
      exact continues_of_eq rfl rfl

/-- Runs under the two limits keep to the pairing `raising`. -/
theorem agree_run_raising (h : limit ≤ limit') (machine : Machine) (program : Program) :
    (raising limit limit').Agree (program.run (machine.withDepthLimit limit))
      (program.run (machine.withDepthLimit limit')) := by
  -- Under the higher limit there are at least as many frames to open.
  obtain ⟨extra, hextra⟩ : ∃ extra, limit' - machine.depth = limit - machine.depth + extra :=
    ⟨limit' - machine.depth - (limit - machine.depth), by omega⟩
  have hsimulation : Simulation (raising limit limit') extra := simulation_raising extra
  have hproper : (limiting limit limit').Proper (machine.withDepthLimit limit) := rfl
  rw [raising_eq_pairing] at hsimulation ⊢
  exact Setting.agree_run hsimulation (fun _ => rfl) hproper hextra program

/-- What agrees with a fault is the same fault, or it `Continues` what was done up to the
fault of the depth limit. -/
theorem eq_or_continues_of_agree {fault : Fault} {after before' : Machine} {second : Evaluation α}
    (h : (raising limit limit').Agree (.error fault after) (second before')) :
    second before' = .error fault (after.withDepthLimit limit') ∨
      fault.cause = .depthExceeded limit ∧ Continues after (second.after before') := by
  rcases hresult : second before' with ⟨value, after'⟩ | ⟨fault', after'⟩ <;> rw [hresult] at h
  · rw [after_of_ok hresult]
    exact .inr h
  · rw [after_of_error hresult]
    rcases h with ⟨⟨f, rfl, rfl⟩, -, rfl⟩ | hparted
    · exact .inl rfl
    · exact .inr hparted

theorem Continues.exists_append {before between after : Machine} (h : Continues before between)
    (h' : Continues between after) :
    ∃ written more consumed further,
      between.output.written = before.output.written ++ written ∧
      after.output.written = before.output.written ++ (written ++ more) ∧
      before.input = consumed ++ between.input ∧
      before.input = (consumed ++ further) ++ after.input := by
  obtain ⟨⟨written, hwritten⟩, ⟨consumed, hconsumed⟩⟩ := h
  obtain ⟨⟨more, hmore⟩, ⟨further, hfurther⟩⟩ := h'
  refine ⟨written, more, consumed, further, hwritten, ?_, hconsumed, ?_⟩
  · rw [hmore, hwritten, ByteArray.append_assoc]
  · rw [hconsumed, hfurther, List.append_assoc]

/-! ## Runs -/

/-- **Raising the depth limit only lets a run go on.** A run that does not fail at `limit` is
the same under `limit'`: it gives the same value or the same fault, and the machines after it
differ in their limits only. A run that fails at its depth limit carries this limit in the
fault, and under `limit'` it writes and reads the same and then maybe more. -/
theorem Program.run_withDepthLimit (h : limit ≤ limit') (machine : Machine) (program : Program) :
    match program.run (machine.withDepthLimit limit) with
    | .ok value after =>
      program.run (machine.withDepthLimit limit') = .ok value (after.withDepthLimit limit')
    | .error fault after =>
      ((∀ exceeded, fault.cause ≠ .depthExceeded exceeded) →
        program.run (machine.withDepthLimit limit') = .error fault (after.withDepthLimit limit')) ∧
      ∀ exceeded, fault.cause = .depthExceeded exceeded →
        exceeded = limit ∧
          ∃ written more consumed further,
            after.output.written = machine.output.written ++ written ∧
            (program.run.after (machine.withDepthLimit limit')).output.written =
              machine.output.written ++ (written ++ more) ∧
            machine.input = consumed ++ after.input ∧
            machine.input = (consumed ++ further) ++
              (program.run.after (machine.withDepthLimit limit')).input := by
  have hagree := agree_run_raising h machine program
  have hbefore := effectBound_continues.moves_run program (machine.withDepthLimit limit)
  rcases hrun : program.run (machine.withDepthLimit limit) with ⟨value, after⟩ | ⟨fault, after⟩ <;>
    rw [hrun] at hagree
  · rcases hrun' : program.run (machine.withDepthLimit limit') with
      ⟨value', after'⟩ | ⟨fault', after'⟩ <;> rw [hrun'] at hagree
    · obtain ⟨rfl, -, rfl⟩ := hagree
      rfl
    · exact hagree.elim
  · rw [after_of_error hrun] at hbefore
    have hcases := eq_or_continues_of_agree hagree
    -- Even when both runs end in the same fault, the second one continues the first one.
    have hafter : Continues after (program.run.after (machine.withDepthLimit limit')) := by
      rcases hcases with hsame | ⟨-, hcontinues⟩
      · rw [after_of_error hsame]
        exact continues_of_eq rfl rfl
      · exact hcontinues
    refine ⟨fun hother => hcases.resolve_right fun hparted => hother limit hparted.1,
      fun exceeded hcause => ⟨?_, hbefore.exists_append hafter⟩⟩
    exact (Program.exists_reachesCall_of_run hrun hcause).1

/-- A program in which a call within a call writes before its caller does. -/
def Program.nesting : Program :=
  [.define "inner" [] [.write (.string "inner") 1] 1,
    .define "outer" [] [.write (.string "outer") 2, .evaluate (.call "inner" [] 2) 2] 2,
    .evaluate (.call "outer" [] 3) 3]

/-- Where `Program.nesting` is allowed one frame, the second call fails, after the first one
has written its line; where two frames are allowed, more lines follow this one. -/
theorem nesting_continues_at_two_frames :
    ∃ fault after,
      Program.nesting.run ((Machine.fresh .unlimited [] (.scripted []) 0).withDepthLimit 1) =
        .error fault after ∧ fault.cause = .depthExceeded 1 ∧
      ∃ more, (Program.nesting.run.after
          ((Machine.fresh .unlimited [] (.scripted []) 0).withDepthLimit 2)).output.written =
        after.output.written ++ more := by
  obtain ⟨fault, after, hrun, hcause⟩ : ∃ fault after,
      Program.nesting.run ((Machine.fresh .unlimited [] (.scripted []) 0).withDepthLimit 1) =
        .error fault after ∧ fault.cause = .depthExceeded 1 := ⟨_, _, rfl, rfl⟩
  have hone : 1 ≤ 2 := by decide
  have hraised := Program.run_withDepthLimit hone (.fresh .unlimited [] (.scripted []) 0) .nesting
  rw [hrun] at hraised
  obtain ⟨-, written, more, -, -, hwritten, hmore, -⟩ := hraised.2 1 hcause
  refine ⟨fault, after, hrun, hcause, more, ?_⟩
  rw [hmore, hwritten, ByteArray.append_assoc]

end Scriptlet
