import Scriptlet.Proofs.Evaluation.Effect

/-!
# Scopes

Which scopes an evaluation touches. An expression leaves the globals and every frame as they were,
whatever it calls and however it ends. A statement leaves every scope but the current one alone, and
the current one changes only when the statement succeeds and has a name to bind.

* `SameScopes` and `SameOuterScopes` compare the scopes of two machines, with and without the
  current one.
* `Statement.target?` is the name that a statement binds.
* `Evaluation.Binds` says that an evaluation binds its value to a target and changes no scope
  otherwise.
* `evaluation_touches_only_target` is the result for expressions and statements.
-/

namespace Scriptlet

/-- Two machines have the same bindings in every scope. -/
structure SameScopes (before after : Machine) : Prop where
  globals : after.globals = before.globals
  frames : after.frames = before.frames

/-- Two machines have equally many frames and the same bindings in every scope outside the
current one: in all frames below the innermost one, and in the globals if there is a frame at
all. -/
structure SameOuterScopes (before after : Machine) : Prop where
  height : after.frames.length = before.frames.length
  outer : after.frames.tail = before.frames.tail
  globals : before.frames ≠ [] → after.globals = before.globals

instance : IsPreorder Machine SameScopes where
  refl _ := ⟨rfl, rfl⟩
  trans _ _ _ h h' := ⟨h'.globals.trans h.globals, h'.frames.trans h.frames⟩

instance : IsPreorder Machine SameOuterScopes where
  refl _ := ⟨rfl, rfl, fun _ => rfl⟩
  trans first second third h h' := by
    refine ⟨h'.height.trans h.height, h'.outer.trans h.outer, fun hframes => ?_⟩
    -- The globals are an outer scope for both steps, as the number of frames is the same.
    have hsecond : second.frames ≠ [] := by
      rw [← List.length_pos_iff, h.height, List.length_pos_iff]
      exact hframes
    rw [h'.globals hsecond, h.globals hframes]

namespace SameScopes

variable {before after : Machine}

theorem current (h : SameScopes before after) : after.current = before.current := by
  unfold Machine.current
  rw [h.frames, h.globals]

theorem sameOuterScopes (h : SameScopes before after) : SameOuterScopes before after :=
  ⟨by rw [h.frames], by rw [h.frames], fun _ => h.globals⟩

theorem bind (h : SameScopes before after) (name : String) (value : Value) :
    SameScopes (before.bind name value) (after.bind name value) := by
  unfold Machine.bind
  rw [h.frames]
  rcases before.frames with _ | ⟨frame, frames⟩
  · exact ⟨congrArg (·.define name value) h.globals, rfl⟩
  · exact ⟨h.globals, rfl⟩

end SameScopes

theorem sameOuterScopes_bind (machine : Machine) (name : String) (value : Value) :
    SameOuterScopes machine (machine.bind name value) := by
  obtain ⟨globals, frames, functions, output, input, words, depthLimit, log⟩ := machine
  rcases frames with _ | ⟨frame, frames⟩
  · exact ⟨rfl, rfl, fun hframes => absurd rfl hframes⟩
  · exact ⟨rfl, rfl, fun _ => rfl⟩

/-- When statements that run in `frame` keep the outer scopes, dropping the frame restores
every scope. This is where a call becomes an expression. -/
theorem SameOuterScopes.pop {frame : Environment} {before after : Machine}
    (h : SameOuterScopes (before.push frame) after) : SameScopes before after.pop :=
  ⟨h.globals (List.cons_ne_nil _ _), h.outer⟩

/-- Expressions keep the `SameScopes`, statements the `SameOuterScopes`. -/
theorem effectBound_sameScopes : EffectBound SameScopes SameOuterScopes where
  action_of_value _ _ h := h.sameOuterScopes
  record _ _ := ⟨rfl, rfl⟩
  write _ _ := ⟨rfl, rfl⟩
  read _ := ⟨rfl, rfl⟩
  draw _ _ := ⟨rfl, rfl⟩
  define _ _ := ⟨rfl, rfl⟩
  bind := sameOuterScopes_bind
  frame _ _ _ h := h.pop

/-- The name that a statement binds in the current scope. -/
def Statement.target? : Statement → Option String
  | .assign name _ _ => some name
  | .read name _ => some name
  | .random name _ _ => some name
  | .write _ _ => none
  | .define _ _ _ _ => none
  | .evaluate _ _ => none

namespace Evaluation

/-- With a value, `evaluation` binds it to the target, if there is one, and changes no scope
otherwise. An evaluation that ends in a fault changes no scope. -/
def Binds (target? : Option String) (evaluation : Evaluation Value) : Prop :=
  ∀ before, match evaluation before with
    | .ok value after => SameScopes (target?.elim before fun name => before.bind name value) after
    | .error _ after => SameScopes before after

variable {α : Type} {target? : Option String}

theorem Moves.binds_none {evaluation : Evaluation Value} (h : Moves SameScopes evaluation) :
    Binds none evaluation := by
  intro before
  have hmove := h before
  rcases hresult : evaluation before with ⟨value, after⟩ | ⟨fault, after⟩
  · rwa [after_of_ok hresult] at hmove
  · rwa [after_of_error hresult] at hmove

/-- Since `first` keeps all scopes, a fault in it leaves `target?` unbound. -/
theorem Moves.bind_binds {first : Evaluation α} {second : α → Evaluation Value}
    (hfirst : Moves SameScopes first) (hsecond : ∀ value, Binds target? (second value)) :
    Binds target? (first >>= second) := by
  intro before
  have hmove := hfirst before
  rcases h : first before with ⟨value, between⟩ | ⟨fault, between⟩
  · rw [after_of_ok h] at hmove
    have hbinds := hsecond value between
    rw [bind_of_ok h]
    rcases hresult : second value between with ⟨last, after⟩ | ⟨fault, after⟩
    · rw [hresult] at hbinds
      -- The target is bound after the first part, in scopes that are still the same.
      rcases target? with _ | name
      · exact trans_of SameScopes hmove hbinds
      · exact trans_of SameScopes (hmove.bind name last) hbinds
    · rw [hresult] at hbinds
      exact trans_of SameScopes hmove hbinds
  · rw [after_of_error h] at hmove
    rw [bind_of_error h]
    exact hmove

theorem binds_bindName (name : String) (value : Value) : Binds (some name) (bindName name value) :=
  fun _ => ⟨rfl, rfl⟩

theorem Binds.within {evaluation : Evaluation Value} (h : Binds target? evaluation)
    (statement : Statement) : Binds target? (Evaluation.within statement evaluation) := by
  intro before
  have hbinds := h before
  unfold Evaluation.within
  rcases hresult : evaluation before with ⟨value, after⟩ | ⟨fault, after⟩ <;>
    rwa [hresult] at hbinds

end Evaluation

open Evaluation

/-- Executing a statement binds its value to its `target?`, if its calls keep all scopes. -/
theorem Statement.binds_executeWith {invoke : Invocation}
    (hinvoke : ∀ function arguments line, Moves SameScopes (invoke function arguments line))
    (statement : Statement) : Binds statement.target? (statement.executeWith invoke) := by
  have hbound := effectBound_sameScopes
  have hexpression := Moves.evaluateWith hinvoke
  unfold Statement.executeWith
  refine Moves.get.bind_binds fun machine => (hbound.moves_record _).bind_binds fun _ => ?_
  refine Binds.within ?_ statement
  -- Three statements end in a binding; the others leave all scopes to their expressions.
  rcases statement with ⟨name, e, line⟩ | ⟨e, line⟩ | ⟨name, line⟩ | ⟨name, e, line⟩ |
    ⟨name, parameters, body, line⟩ | ⟨e, line⟩
  · exact (hexpression e).bind_binds fun value => binds_bindName name value
  · refine ((hexpression e).bind fun written => ?_).binds_none
    exact (hbound.moves_writeValue written line).bind fun _ => Moves.pure written
  · exact (hbound.moves_readLine line).bind_binds fun text => binds_bindName name _
  · refine (hexpression e).bind_binds fun limit => ?_
    exact (hbound.moves_drawBelow limit line).bind_binds fun drawn => binds_bindName name drawn
  · exact ((hbound.moves_defineFunction _).bind fun _ => Moves.pure _).binds_none
  · exact (hexpression e).binds_none

/-- Executing a statement binds its value to its `target?`. -/
theorem Statement.binds_execute (statement : Statement) :
    Binds statement.target? statement.execute :=
  Moves.get.bind_binds fun _ =>
    statement.binds_executeWith (effectBound_sameScopes.moves_invoke _)

/-- The frames of a `machine` outside all calls are none after a run either, which may have
ended in a fault. -/
theorem Program.frames_after_run {machine : Machine} (h : machine.frames = [])
    (program : Program) : (program.run.after machine).frames = [] := by
  -- Outside all calls there is no frame, and the number of frames is kept.
  have hheight := (effectBound_sameScopes.moves_run program machine).height
  rw [h] at hheight
  exact List.eq_nil_of_length_eq_zero hheight

/-- **Scopes are touched only where the language says so**, whether an evaluation gives a
value or ends in a fault. An expression keeps the globals and all frames: `SameScopes`. A
statement keeps the number of frames and every scope but the current one: `SameOuterScopes`; a
fault keeps the current one too, and so does a statement without a `target?`. A statement with
a target that gives a value binds the target to it in the current scope and changes nothing
else there. -/
theorem evaluation_touches_only_target (machine : Machine) :
    (∀ expression : Expression, SameScopes machine (expression.evaluate.after machine)) ∧
      ∀ statement : Statement,
        SameOuterScopes machine (statement.execute.after machine) ∧
          match statement.execute machine with
          | .error _ after => SameScopes machine after
          | .ok value after =>
            match statement.target? with
            | none => SameScopes machine after
            | some name => after.current = machine.current.define name value := by
  refine ⟨fun expression => effectBound_sameScopes.moves_evaluate expression machine,
    fun statement => ⟨effectBound_sameScopes.moves_execute statement machine, ?_⟩⟩
  -- What a statement does to its target is said by `Binds`, for values and for faults.
  have hbinds := statement.binds_execute machine
  rcases h : statement.execute machine with ⟨value, after⟩ | ⟨fault, after⟩
  · rw [h] at hbinds
    rcases htarget : statement.target? with _ | name
    · rwa [htarget] at hbinds
    · rw [htarget] at hbinds
      calc after.current = (machine.bind name value).current := hbinds.current
        _ = machine.current.define name value := machine.current_bind name value
  · rwa [h] at hbinds

end Scriptlet
