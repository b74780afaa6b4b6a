import Scriptlet.Proofs.Evaluation.Simulation

/-!
# Calls and the scopes of their callers

A call cannot see the variables of its caller. Two calls of one function with the same arguments do
the same on two machines whose globals and frames have nothing in common but the number of frames.

* `SameSurroundings` compares everything but the bindings of the scopes.
* `SameOutlook` also compares the current scope; this is what two evaluations that see the same
  keep.
* `call_ignores_scopes` is the result.
-/

namespace Scriptlet

open Evaluation

/-- Two machines agree on everything but their bindings: they have the same functions, devices
and limits, and equally many frames. -/
structure SameSurroundings (first second : Machine) : Prop where
  functions : ∀ name, second.functions.find? name = first.functions.find? name
  output : second.output = first.output
  input : second.input = first.input
  words : second.words = first.words
  depthLimit : second.depthLimit = first.depthLimit
  depth : second.depth = first.depth

/-- Two machines agree on everything that the running statement can see: besides their
`SameSurroundings` they have the same current scope. -/
structure SameOutlook (first second : Machine) : Prop extends SameSurroundings first second where
  current : second.current = first.current

namespace SameSurroundings

variable {first second : Machine} (h : SameSurroundings first second)
include h

theorem withScopes {frames frames' : List Environment} (hlength : frames'.length = frames.length)
    (globals globals' : Environment) :
    SameSurroundings { first with globals := globals, frames := frames }
      { second with globals := globals', frames := frames' } :=
  ⟨h.functions, h.output, h.input, h.words, h.depthLimit, hlength⟩

theorem push (frame frame' : Environment) :
    SameSurroundings (first.push frame) (second.push frame') :=
  h.withScopes (congrArg (· + 1) h.depth) _ _

theorem pop : SameSurroundings first.pop second.pop := by
  refine h.withScopes ?_ _ _
  rw [List.length_tail, List.length_tail]
  exact congrArg (· - 1) h.depth

theorem bind (name : String) (value value' : Value) :
    SameSurroundings (first.bind name value) (second.bind name value') := by
  obtain ⟨globals, frames, hfirst⟩ := first.exists_bind_eq name value
  obtain ⟨globals', frames', hsecond⟩ := second.exists_bind_eq name value'
  have hdepth : (second.bind name value').depth = (first.bind name value).depth := by
    rw [Machine.depth_bind, Machine.depth_bind, h.depth]
  rw [hfirst, hsecond] at hdepth ⊢
  exact h.withScopes hdepth _ _

theorem define (function : Function) :
    SameSurroundings { first with functions := first.functions.define function }
      { second with functions := second.functions.define function } := by
  refine ⟨fun name => ?_, h.output, h.input, h.words, h.depthLimit, h.depth⟩
  rw [FunctionTable.find?_define, FunctionTable.find?_define, h.functions]

end SameSurroundings

/-- What the running statement sees decides what it does: the relation `SameOutlook` is kept
by every step. A call opens the same frame on both sides, so the scopes below it need not
agree. -/
theorem lockstep_sameOutlook : Lockstep SameOutlook (· = id) where
  functions h name := by
    rw [h.functions]
    exact rel_self _
  current h := h.current
  depth h := h.depth
  record _ h _ := ⟨⟨h.functions, h.output, h.input, h.words, h.depthLimit, h.depth⟩, h.current⟩
  bind h name value := by
    refine ⟨h.toSameSurroundings.bind name value value, ?_⟩
    rw [Machine.current_bind, Machine.current_bind, h.current]
  define hf h function := by
    rw [hf, Function.mapLines_id]
    exact ⟨h.toSameSurroundings.define function, h.current⟩
  push h frame := ⟨h.toSameSurroundings.push frame frame, rfl⟩
  leave {before before' after after'} h hafter hscopes hscopes' := by
    -- The current scopes after the call are those before it.
    refine ⟨hafter.toSameSurroundings.pop, ?_⟩
    calc after'.pop.current = before'.current := hscopes'.current
      _ = before.current := h.current
      _ = after.pop.current := hscopes.current.symm
  output h := h.output
  input h := h.input
  words h := h.words
  depthLimit h := h.depthLimit
  write h _ := ⟨⟨h.functions, rfl, h.input, h.words, h.depthLimit, h.depth⟩, h.current⟩
  read h _ := ⟨⟨h.functions, h.output, rfl, h.words, h.depthLimit, h.depth⟩, h.current⟩
  draw h _ := ⟨⟨h.functions, h.output, h.input, rfl, h.depthLimit, h.depth⟩, h.current⟩

/-- **A call ignores the scopes of its caller.** On two machines with the `SameSurroundings`,
whatever the globals and the frames of its caller bind, the call of `function` gives the same
value or the same fault, and leaves machines with the `SameSurroundings`. -/
theorem call_ignores_scopes {first second : Machine} (h : SameSurroundings first second)
    (function : Function) (arguments : List Value) :
    match function.call arguments first, function.call arguments second with
    | .ok value after, .ok value' after' => value' = value ∧ SameSurroundings after after'
    | .error fault after, .error fault' after' => fault' = fault ∧ SameSurroundings after after'
    | _, _ => False := by
  have hopen : second.openFrames = first.openFrames := by
    unfold Machine.openFrames
    rw [h.depthLimit, h.depth]
  -- The frames of the two calls are equal, so the body sees the same in both.
  let frame : Environment := .ofParameters function.parameters arguments
  have houtlook : SameOutlook (first.push frame) (second.push frame) := ⟨h.push frame frame, rfl⟩
  have hbody := (lockstep_sameOutlook.simulation.tracks_executeProgram (first.openFrames - 1) rfl
    function.body .nil).agree _ _ houtlook
  rw [Program.mapLines_id] at hbody
  show match Evaluation.inFrame frame (Program.executeWith _ .nil function.body) first,
    Evaluation.inFrame frame (Program.executeWith _ .nil function.body) second with
    | .ok value after, .ok value' after' => value' = value ∧ SameSurroundings after after'
    | .error fault after, .error fault' after' => fault' = fault ∧ SameSurroundings after after'
    | _, _ => False
  rw [hopen]
  unfold Evaluation.inFrame
  rcases Lockstep.agree_cases hbody with ⟨value, after, after', hleft, hright, hafter⟩ |
    ⟨fault, _, after, after', rfl, hleft, hright, hafter⟩ <;>
    rw [Nat.add_zero] at hright <;> rw [hleft, hright]
  · exact ⟨rfl, hafter.toSameSurroundings.pop⟩
  · exact ⟨rfl, hafter.toSameSurroundings.pop⟩

/-- A machine whose globals bind `secret`. -/
def Machine.keeping (secret : Int) : Machine :=
  { Machine.fresh .unlimited [] (.scripted []) defaultDepthLimit with
    globals := Environment.empty.define "secret" (.integer secret) }

/-- A function that asks for a name it does not bind. -/
def Function.prying : Function := ⟨"pry", [], [.write (.identifier "secret" 3) 3]⟩

/-- The global `secret` of `Machine.keeping` is out of reach for `Function.prying`, whatever
its value is. -/
theorem prying_call_finds_no_secret :
    (Machine.keeping 1).current.find? "secret" ≠ (Machine.keeping 2).current.find? "secret" ∧
      ∃ after after',
        Function.prying.call [] (.keeping 1) =
          .error ⟨.undefinedVariable "secret", 3, some "write"⟩ after ∧
        Function.prying.call [] (.keeping 2) =
          .error ⟨.undefinedVariable "secret", 3, some "write"⟩ after' ∧
        SameSurroundings after after' := by
  have hsame : SameSurroundings (.keeping 1) (.keeping 2) :=
    ⟨fun _ => rfl, rfl, rfl, rfl, rfl, rfl⟩
  exact ⟨by decide, _, _, rfl, rfl, (call_ignores_scopes hsame .prying []).2⟩

end Scriptlet
