import Scriptlet.Proofs.Evaluation.Equations
import Scriptlet.Proofs.Evaluation.Simulation

/-!
# Programs in a row

Two programs in a row are run as the first one and then, where it gave a value, as the second one.
There is one flush more when they are run one by one, so this needs an output that can be flushed.

* `Program.executeWith_append`: statements in a row are executed one after the other.
* `openFrames_of_execute` and `flushRefusal_of_execute`: what the second program finds after the
  first one.
* `Program.run_append` is the result for whole runs.
-/

namespace Scriptlet

open Evaluation

theorem Program.executeWith_append (invoke : Invocation) (last : Value)
    (first second : Program) :
    Program.executeWith invoke last (first ++ second) =
      Program.executeWith invoke last first >>= fun value =>
        Program.executeWith invoke value second := by
  induction first generalizing last with
  | nil =>
    rw [List.nil_append, Program.executeWith, pure_bind]
  | cons statement rest ih =>
    rw [List.cons_append, Program.executeWith, Program.executeWith, bind_assoc]
    exact congrArg _ (funext ih)

/-! ## What an execution leaves behind -/

variable {α : Type} {openFrames : Nat} {last value : Value} {program : Program}
  {before after : Machine}

theorem openFrames_of_execute
    (h : Program.executeWith (Function.invoke openFrames) last program before = .ok value after) :
    after.openFrames = before.openFrames := by
  have hextent := effectBound_sameExtent.moves_executeProgramWith
    (effectBound_sameExtent.moves_invoke openFrames) program last before
  rw [after_of_ok h] at hextent
  exact hextent.openFrames

/-- An evaluation beside itself, on a machine whose output can be flushed. Nothing is asked
any more once it has ended in a fault: the output may have refused a line and hold it back. -/
def flushable : Pairing where
  together machine machine' := machine' = machine ∧ machine.output.flushRefusal = none
  relabels := (· = id)
  parted _ _ _ := True
  onward _ _ := True

instance : IsPreorder Machine flushable.onward where
  refl _ := trivial
  trans _ _ _ _ _ := trivial

/-- An evaluation keeps to `flushable` if a value of it comes with an output that can be
flushed as before. -/
theorem tracks_flushable {evaluation : Evaluation α}
    (h : ∀ {machine value after}, evaluation machine = .ok value after →
      after.output.flushRefusal = machine.output.flushRefusal) :
    flushable.Tracks evaluation evaluation := by
  refine ⟨fun machine machine' ⟨hsame, hflush⟩ => ?_, fun _ => trivial⟩
  rw [hsame]
  rcases hresult : evaluation machine with ⟨value, after⟩ | ⟨fault, after⟩
  · exact ⟨rfl, rfl, (h hresult).trans hflush⟩
  · exact .inr trivial

/-- Only a line that is refused can set `flushRefusal`, and it ends the evaluation. -/
theorem simulation_flushable : Simulation flushable 0 where
  effect := effectBound_true
  onward _ _ := trivial
  within _ _ := trivial
  pop _ := trivial
  functions h name := by
    rw [h.1]
    exact rel_self _
  current h := by rw [h.1]
  depth h := by rw [h.1]
  record hf h event := by
    rw [h.1, hf, Event.mapLine_id]
    exact ⟨rfl, h.2⟩
  bind {machine _} h name bindee := by
    obtain ⟨globals, frames, hbind⟩ := machine.exists_bind_eq name bindee
    rw [h.1, hbind]
    exact ⟨rfl, h.2⟩
  define hf h function := by
    rw [h.1, hf, Function.mapLines_id]
    exact ⟨rfl, h.2⟩
  push h frame := by
    rw [h.1]
    exact ⟨rfl, h.2⟩
  leave _ h _ _ := by
    rw [h.1]
    exact ⟨rfl, h.2⟩
  write hf written line := by
    rw [hf, id]
    refine tracks_flushable fun {machine _ _} hresult => ?_
    rcases hwritten : machine.output.writeLine written with ⟨output, _ | reason⟩
    · rw [writeValue_of_taken hwritten] at hresult
      cases hresult
      exact Sink.flushRefusal_of_writeLine hwritten
    · -- A refused line gives no value.
      rw [writeValue_of_refused hwritten] at hresult
      cases hresult
  -- A read and a draw leave the output alone, whatever they give.
  read hf line := by
    rw [hf, id]
    refine tracks_flushable fun {machine _ _} hresult => ?_
    rcases hread : Input.readLine machine.input with ⟨error | text, input⟩
    · rw [readLine_of_error hread] at hresult
      cases hresult
    · rw [readLine_of_ok hread] at hresult
      cases hresult
      rfl
  draw hf bound line := by
    rw [hf, id]
    rcases nonneg_or_drawBelow_eq_fail bound with ⟨n, hn, rfl⟩ | ⟨cause, hfail⟩
    · refine tracks_flushable fun {machine _ _} hresult => ?_
      rw [drawBelow_of_nonneg hn] at hresult
      cases hresult
      rfl
    · rw [hfail]
      exact .fail (f := id) rfl cause line
  exhausted _ _ _ _ _ := ⟨fun _ _ _ => .inr trivial, fun _ => trivial⟩

/-- With a value, an execution leaves an output without `flushRefusal` if it started on one. -/
theorem flushRefusal_of_execute
    (h : Program.executeWith (Function.invoke openFrames) last program before = .ok value after)
    (hflush : before.output.flushRefusal = none) : after.output.flushRefusal = none := by
  have hagree := (simulation_flushable.tracks_executeProgram openFrames rfl program last).agree
    before before ⟨rfl, hflush⟩
  rw [Program.mapLines_id, Nat.add_zero, h] at hagree
  exact hagree.2.2

/-! ## Runs -/

theorem Program.run_of_error {fault : Fault}
    (h : Program.executeWith (Function.invoke before.openFrames) .nil program before =
      .error fault after) : program.run before = .error fault after := by
  unfold Program.run
  rw [bind_of_ok (get_apply before), bind_of_error h]

/-- The run of statements that give a value gives this value, if `after.output` can be
flushed. -/
theorem Program.run_of_ok
    (h : Program.executeWith (Function.invoke before.openFrames) .nil program before =
      .ok value after) (hflush : after.output.flushRefusal = none) :
    program.run before = .ok value after := by
  unfold Program.run
  rw [bind_of_ok (get_apply before), bind_of_ok h, bind_of_ok (flush_of_not_refused hflush)]
  rfl

/-- Two programs in a row are run as `first` and then, where it gave a value, as `second`. An
empty `second` is left out, for an empty program has a value of its own. -/
theorem Program.run_append {machine : Machine} (hflush : machine.output.flushRefusal = none)
    (first : Program) {second : Program} (hne : second ≠ []) :
    Program.run (first ++ second) machine =
      match first.run machine with
      | .ok _ between => second.run between
      | .error fault after => .error fault after := by
  have happend := Program.executeWith_append (Function.invoke machine.openFrames) .nil first second
  rcases hfirst : Program.executeWith (Function.invoke machine.openFrames) .nil first machine with
    ⟨value, between⟩ | ⟨fault, after⟩
  · rw [Program.run_of_ok hfirst (flushRefusal_of_execute hfirst hflush)]
    dsimp only
    unfold Program.run
    rw [bind_of_ok (get_apply machine), bind_of_ok (get_apply between), happend, bind_assoc,
      bind_of_ok hfirst, openFrames_of_execute hfirst]
    -- The value of the first program is not used, as the second one has a first statement.
    obtain ⟨statement, rest, rfl⟩ := List.exists_cons_of_ne_nil hne
    rfl
  · have hwhole : Program.executeWith (Function.invoke machine.openFrames) .nil (first ++ second)
        machine = .error fault after := by rw [happend, bind_of_error hfirst]
    rw [Program.run_of_error hfirst, Program.run_of_error hwhole]

end Scriptlet
