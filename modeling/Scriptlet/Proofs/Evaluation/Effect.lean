import Mathlib.Order.Defs.Unbundled
import Scriptlet.Evaluation

/-!
# Effects of evaluation

How the machine after an evaluation is related to the machine before it, whether the evaluation
gives a value or ends in a fault. The induction over expressions, statements, bodies and nested
calls is made here once, for any two relations that every single step stays inside.

* `Evaluation.after` is the machine that an evaluation leaves behind.
* `Evaluation.Moves R` says that an evaluation relates the machine before it to the one after it.
* `EffectBound value action` says that no single step of an expression leaves `value` and none of a
  statement leaves `action`.
* `EffectBound.moves_evaluate` and `EffectBound.moves_execute` conclude this for whole evaluations.
-/

namespace Scriptlet

variable {α β : Type} {R S : Machine → Machine → Prop}

/-- What `Machine.bind` changes is the globals or the frames; every other field is as it was. -/
theorem Machine.exists_bind_eq (machine : Machine) (name : String) (value : Value) :
    ∃ globals frames, machine.bind name value = { machine with globals, frames } := by
  unfold Machine.bind
  split
  · exact ⟨_, machine.frames, rfl⟩
  · exact ⟨machine.globals, _, rfl⟩

namespace Evaluation

/-- The machine that `evaluation` leaves behind, with a value or with a fault. -/
def after (evaluation : Evaluation α) (machine : Machine) : Machine :=
  match evaluation machine with
  | .ok _ machine => machine
  | .error _ machine => machine

theorem after_of_ok {evaluation : Evaluation α} {before after : Machine} {value : α}
    (h : evaluation before = .ok value after) : evaluation.after before = after := by
  rw [Evaluation.after, h]

theorem after_of_error {evaluation : Evaluation α} {before after : Machine} {fault : Fault}
    (h : evaluation before = .error fault after) : evaluation.after before = after := by
  rw [Evaluation.after, h]

/-- The part `second` of an evaluation runs where `first` gave a value. -/
theorem bind_of_ok {first : Evaluation α} {before between : Machine} {value : α}
    (h : first before = .ok value between) (second : α → Evaluation β) :
    (first >>= second) before = second value between := by
  simp only [bind, EStateM.bind, h]

/-- A fault in `first` is the end of the evaluation. -/
theorem bind_of_error {first : Evaluation α} {before between : Machine} {fault : Fault}
    (h : first before = .error fault between) (second : α → Evaluation β) :
    (first >>= second) before = .error fault between := by
  simp only [bind, EStateM.bind, h]

theorem get_apply (machine : Machine) :
    (get : Evaluation Machine) machine = .ok machine machine := rfl

/-- The machine after an evaluation of two parts: `second` only moves it where `first` gave a
value. -/
theorem after_bind (first : Evaluation α) (second : α → Evaluation β) (machine : Machine) :
    (first >>= second).after machine =
      match first machine with
      | .ok value between => (second value).after between
      | .error _ between => between := by
  rcases h : first machine with ⟨value, between⟩ | ⟨fault, between⟩
  · show Evaluation.after _ _ = Evaluation.after _ _
    unfold Evaluation.after
    rw [bind_of_ok h]
  · exact after_of_error (bind_of_error h second)

@[simp]
theorem after_within (statement : Statement) (evaluation : Evaluation α) (machine : Machine) :
    (Evaluation.within statement evaluation).after machine = evaluation.after machine := by
  unfold after within
  rcases evaluation machine with ⟨value, between⟩ | ⟨fault, between⟩ <;> rfl

/-- The frame of `inFrame` is dropped from whatever machine `evaluation` leaves behind. -/
@[simp]
theorem after_inFrame (frame : Environment) (evaluation : Evaluation α) (machine : Machine) :
    (Evaluation.inFrame frame evaluation).after machine =
      (evaluation.after (machine.push frame)).pop := by
  unfold after inFrame
  rcases evaluation (machine.push frame) with ⟨value, between⟩ | ⟨fault, between⟩ <;> rfl

@[simp]
theorem after_flush (machine : Machine) : Evaluation.flush.after machine = machine := by
  unfold Evaluation.flush after
  rw [bind_of_ok (get_apply machine)]
  rcases machine.output.flushRefusal with _ | reason <;> rfl

theorem flush_of_not_refused {machine : Machine} (h : machine.output.flushRefusal = none) :
    Evaluation.flush machine = .ok () machine := by
  unfold Evaluation.flush
  rw [bind_of_ok (get_apply machine), h]
  rfl

/-- An output that refuses to be flushed gives a fault with its `reason`, at line zero. -/
theorem flush_of_refused {machine : Machine} {reason : String}
    (h : machine.output.flushRefusal = some reason) :
    Evaluation.flush machine = .error ⟨.transfer (.refused reason), 0, none⟩ machine := by
  unfold Evaluation.flush
  rw [bind_of_ok (get_apply machine), h]
  rfl

theorem writeValue_of_taken {value : Value} {machine : Machine} {output : Sink}
    (h : machine.output.writeLine value = (output, none)) (line : Nat) :
    writeValue value line machine = .ok () { machine with output := output } := by
  unfold writeValue
  rw [bind_of_ok (get_apply machine), h]
  rfl

/-- A line that the output refuses is a fault with its `reason`. The sink `output` keeps what
it took of the line. -/
theorem writeValue_of_refused {value : Value} {machine : Machine} {output : Sink}
    {reason : String} (h : machine.output.writeLine value = (output, some reason)) (line : Nat) :
    writeValue value line machine =
      .error ⟨.transfer (.refused reason), line, none⟩ { machine with output := output } := by
  unfold writeValue
  rw [bind_of_ok (get_apply machine), h]
  rfl

theorem readLine_of_ok {machine : Machine} {text : String} {input : List UInt8}
    (h : Input.readLine machine.input = (.ok text, input)) (line : Nat) :
    readLine line machine = .ok text { machine with input := input } := by
  unfold readLine
  rw [bind_of_ok (get_apply machine), h]
  rfl

/-- Where `Input.readLine` has an `error`, the machine keeps the `input` behind the line all
the same. -/
theorem readLine_of_error {machine : Machine} {error : TransferError} {input : List UInt8}
    (h : Input.readLine machine.input = (.error error, input)) (line : Nat) :
    readLine line machine =
      .error ⟨.transfer error, line, none⟩ { machine with input := input } := by
  unfold readLine
  rw [bind_of_ok (get_apply machine), h]
  rfl

/-- A draw below a `bound` that is not negative takes words from their source. -/
theorem drawBelow_of_nonneg {bound : Int} (h : 0 ≤ bound) (line : Nat) (machine : Machine) :
    drawBelow (.integer bound) line machine =
      .ok (.integer (Random.draw bound.toNat machine.words).1)
        { machine with words := (Random.draw bound.toNat machine.words).2 } := by
  unfold drawBelow
  simp only [h, if_true]
  rfl

/-- Unless `bound` is an integer of at least zero, `drawBelow` fails, with one `cause` at all
lines. -/
theorem nonneg_or_drawBelow_eq_fail (bound : Value) :
    (∃ n, 0 ≤ n ∧ bound = .integer n) ∨
      ∃ cause, ∀ line, drawBelow bound line = fail cause line := by
  rcases bound with n | text | items | truth | _
  · by_cases hn : 0 ≤ n
    · exact .inl ⟨n, hn, rfl⟩
    · exact .inr ⟨.negativeBound n, fun line => if_neg hn⟩
  all_goals exact .inr ⟨_, fun line => rfl⟩

theorem defineFunction_of_find?_eq_none {function : Function} {machine : Machine}
    (h : machine.functions.find? function.name = none) :
    defineFunction function machine =
      .ok () { machine.record (.defining function.name function.arity) with
        functions := machine.functions.define function } := by
  unfold defineFunction
  show (if (machine.functions.find? function.name).isSome then _ else (pure () : Evaluation Unit))
    _ = _
  rw [h]
  rfl

/-- Where an `old` function has the name, `defineFunction` logs the definition, stores it and
logs `.redefined`. -/
theorem defineFunction_of_find?_eq_some {function old : Function} {machine : Machine}
    (h : machine.functions.find? function.name = some old) :
    defineFunction function machine =
      .ok () (Machine.record { machine.record (.defining function.name function.arity) with
        functions := machine.functions.define function } (.redefined function.name)) := by
  unfold defineFunction
  show (if (machine.functions.find? function.name).isSome then _ else (pure () : Evaluation Unit))
    _ = _
  rw [h]
  rfl

/-- Every run of `evaluation` relates the machine before it to the machine after it by `R`.
Values and faults are not told apart. -/
def Moves (R : Machine → Machine → Prop) (evaluation : Evaluation α) : Prop :=
  ∀ machine, R machine (evaluation.after machine)

namespace Moves

theorem pure [Std.Refl R] (value : α) : Moves R (Pure.pure value : Evaluation α) :=
  fun machine => refl_of R machine

theorem fail [Std.Refl R] (cause : Fault.Cause) (line : Nat) :
    Moves R (Evaluation.fail cause line : Evaluation α) :=
  fun machine => refl_of R machine

theorem get [Std.Refl R] : Moves R (MonadState.get : Evaluation Machine) :=
  fun machine => refl_of R machine

theorem ofCause [Std.Refl R] (line : Nat) (result : Except Fault.Cause α) :
    Moves R (Evaluation.ofCause line result) := by
  rcases result with cause | value
  · exact fail cause line
  · exact pure value

/-- A longer evaluation moves by a transitive `R` as its parts do. -/
theorem bind [IsTrans Machine R] {first : Evaluation α} {second : α → Evaluation β}
    (hfirst : Moves R first) (hsecond : ∀ value, Moves R (second value)) :
    Moves R (first >>= second) := by
  intro machine
  have hmove := hfirst machine
  rw [after_bind]
  -- Only an evaluation that got past its first part has a second one to compose with.
  rcases h : first machine with ⟨value, between⟩ | ⟨fault, between⟩
  · rw [after_of_ok h] at hmove
    exact trans_of R hmove (hsecond value between)
  · rwa [after_of_error h] at hmove

theorem within {evaluation : Evaluation α} (h : Moves R evaluation) (statement : Statement) :
    Moves R (Evaluation.within statement evaluation) := by
  intro machine
  rw [after_within]
  exact h machine

theorem mono {evaluation : Evaluation α} (h : Moves R evaluation)
    (himp : ∀ before after, R before after → S before after) : Moves S evaluation :=
  fun machine => himp _ _ (h machine)

mutual

/-- An expression stays inside `R` if its calls do: it touches the machine in no other way. -/
theorem evaluateWith [IsPreorder Machine R] {invoke : Invocation}
    (hinvoke : ∀ function arguments line, Moves R (invoke function arguments line)) :
    ∀ expression : Expression, Moves R (expression.evaluateWith invoke)
  | .literal n => by
    rw [Expression.evaluateWith]
    exact Moves.pure _
  | .string text => by
    rw [Expression.evaluateWith]
    exact Moves.get.bind fun machine => Moves.pure _
  | .identifier name line => by
    rw [Expression.evaluateWith]
    refine Moves.get.bind fun machine => ?_
    rcases machine.current.find? name with _ | found
    · exact Moves.fail _ _
    · exact Moves.pure _
  | .binary op left right line => by
    rw [Expression.evaluateWith]
    refine (evaluateWith hinvoke left).bind fun leftValue => ?_
    refine (evaluateWith hinvoke right).bind fun rightValue => ?_
    exact Moves.ofCause _ _
  | .list items => by
    rw [Expression.evaluateWith]
    exact (evaluateAllWith hinvoke items).bind fun values => Moves.pure _
  | .call name arguments line => by
    rw [Expression.evaluateWith]
    refine Moves.get.bind fun machine => ?_
    -- The function and the number of arguments are checked before anything is evaluated.
    rcases machine.functions.find? name with _ | function
    · exact Moves.fail _ _
    · show Moves R (ite _ _ _)
      split
      · exact Moves.fail _ _
      · exact (evaluateAllWith hinvoke arguments).bind fun values => hinvoke _ _ _

theorem evaluateAllWith [IsPreorder Machine R] {invoke : Invocation}
    (hinvoke : ∀ function arguments line, Moves R (invoke function arguments line)) :
    ∀ expressions : List Expression, Moves R (Expression.evaluateAllWith invoke expressions)
  | [] => by
    rw [Expression.evaluateAllWith]
    exact Moves.pure _
  | e :: es => by
    rw [Expression.evaluateAllWith]
    refine (evaluateWith hinvoke e).bind fun head => ?_
    exact (evaluateAllWith hinvoke es).bind fun tail => Moves.pure _

end

end Moves

end Evaluation

open Evaluation

/-- Relations that evaluation stays inside because every single step does: `value` bounds what
expressions do to the machine, and `action` what statements do. The fields are the steps, one
for each way in which `Evaluation` changes a machine. -/
structure EffectBound (value action : Machine → Machine → Prop) : Prop where
  /-- A statement may do what its expressions do. -/
  action_of_value : ∀ before after, value before after → action before after
  record : ∀ machine event, value machine (machine.record event)
  write : ∀ machine written,
    value machine { machine with output := (machine.output.writeLine written).1 }
  read : ∀ machine, value machine { machine with input := (Input.readLine machine.input).2 }
  draw : ∀ machine bound,
    value machine { machine with words := (Random.draw bound machine.words).2 }
  define : ∀ machine function,
    value machine { machine with functions := machine.functions.define function }
  /-- A statement may bind a name, which an expression may not. -/
  bind : ∀ machine name bindee, action machine (machine.bind name bindee)
  /-- A call is an expression although statements run in its frame. -/
  frame : ∀ parameters before after,
    action (before.push parameters) after → value before after.pop

/-- The bound that allows everything. -/
theorem effectBound_true : EffectBound (fun _ _ => True) (fun _ _ => True) where
  action_of_value _ _ _ := trivial
  record _ _ := trivial
  write _ _ := trivial
  read _ := trivial
  draw _ _ := trivial
  define _ _ := trivial
  bind _ _ _ := trivial
  frame _ _ _ _ := trivial

namespace EffectBound

variable {value action : Machine → Machine → Prop} (bound : EffectBound value action)
include bound

theorem moves_record (event : Event) : Moves value (Evaluation.record event) :=
  fun machine => bound.record machine event

theorem moves_writeValue (written : Value) (line : Nat) :
    Moves value (Evaluation.writeValue written line) := by
  intro machine
  have hwrite := bound.write machine written
  rcases h : machine.output.writeLine written with ⟨output, _ | reason⟩
  · rw [after_of_ok (writeValue_of_taken h line)]
    rwa [h] at hwrite
  · rw [after_of_error (writeValue_of_refused h line)]
    rwa [h] at hwrite

theorem moves_readLine (line : Nat) : Moves value (Evaluation.readLine line) := by
  intro machine
  have hread := bound.read machine
  rcases h : Input.readLine machine.input with ⟨error | text, input⟩
  · rw [after_of_error (readLine_of_error h line)]
    rwa [h] at hread
  · rw [after_of_ok (readLine_of_ok h line)]
    rwa [h] at hread

theorem moves_bindName (name : String) (bindee : Value) :
    Moves action (Evaluation.bindName name bindee) :=
  fun machine => bound.bind machine name bindee

variable [IsPreorder Machine value]

theorem moves_drawBelow (limit : Value) (line : Nat) :
    Moves value (Evaluation.drawBelow limit line) := by
  rcases nonneg_or_drawBelow_eq_fail limit with ⟨n, hn, rfl⟩ | ⟨cause, hfail⟩
  · intro machine
    rw [after_of_ok (drawBelow_of_nonneg hn line machine)]
    exact bound.draw machine n.toNat
  · rw [hfail]
    exact Moves.fail cause line

theorem moves_defineFunction (function : Function) :
    Moves value (Evaluation.defineFunction function) := by
  intro machine
  have hstored := trans_of value
    (bound.record machine (.defining function.name function.arity)) (bound.define _ function)
  -- A redefinition is one event more in the log.
  rcases h : machine.functions.find? function.name with _ | old
  · rw [after_of_ok (defineFunction_of_find?_eq_none h)]
    exact hstored
  · rw [after_of_ok (defineFunction_of_find?_eq_some h)]
    exact trans_of value hstored (bound.record _ _)

variable [IsPreorder Machine action]

section Invocation

variable {invoke : Invocation}
  (hinvoke : ∀ function arguments line, Moves value (invoke function arguments line))
include hinvoke

/-- A statement stays inside `action` if its calls stay inside `value`: it may bind a name
besides. -/
theorem moves_executeWith (statement : Statement) :
    Moves action (statement.executeWith invoke) := by
  -- A statement may do what its expressions do, and only a binding is more than that.
  have hvalue {α : Type} {evaluation : Evaluation α} (h : Moves value evaluation) :
      Moves action evaluation := h.mono bound.action_of_value
  have hexpression := Moves.evaluateWith hinvoke
  unfold Statement.executeWith
  refine Moves.get.bind fun machine => (hvalue (bound.moves_record _)).bind fun _ => ?_
  refine Moves.within ?_ statement
  rcases statement with ⟨name, e, line⟩ | ⟨e, line⟩ | ⟨name, line⟩ | ⟨name, e, line⟩ |
    ⟨name, parameters, body, line⟩ | ⟨e, line⟩
  · exact (hvalue (hexpression e)).bind fun _ => bound.moves_bindName _ _
  · refine hvalue ((hexpression e).bind fun written => ?_)
    exact (bound.moves_writeValue written line).bind fun _ => Moves.pure _
  · exact (hvalue (bound.moves_readLine line)).bind fun _ => bound.moves_bindName _ _
  · refine (hvalue (hexpression e)).bind fun limit => ?_
    exact (hvalue (bound.moves_drawBelow limit line)).bind fun _ => bound.moves_bindName _ _
  · exact (hvalue (bound.moves_defineFunction _)).bind fun _ => Moves.pure _
  · exact hvalue (hexpression e)

theorem moves_executeProgramWith (program : Program) (last : Value) :
    Moves action (Program.executeWith invoke last program) := by
  induction program generalizing last with
  | nil => exact Moves.pure last
  | cons statement rest ih =>
    rw [Program.executeWith]
    exact (bound.moves_executeWith hinvoke statement).bind fun last => ih last

/-- A body that runs in a frame of its own is part of an expression, so `action` on the frame
becomes `value` outside. -/
theorem moves_enterWith (function : Function) (arguments : List Value) :
    Moves value (function.enterWith invoke arguments) := by
  intro machine
  unfold Function.enterWith
  rw [after_inFrame]
  exact bound.frame _ _ _ (bound.moves_executeProgramWith hinvoke function.body .nil _)

end Invocation

/-- Calls of every depth stay inside `value`. By induction on `openFrames`. -/
theorem moves_invoke (openFrames : Nat) (function : Function) (arguments : List Value)
    (line : Nat) : Moves value (Function.invoke openFrames function arguments line) := by
  induction openFrames generalizing function arguments line with
  | zero => exact Moves.get.bind fun machine => Moves.fail _ _
  | succ openFrames ih =>
    rw [Function.invoke]
    -- The body runs with one frame less to open, where calls stay inside the bound.
    refine Moves.get.bind fun machine => (bound.moves_record _).bind fun _ => ?_
    exact bound.moves_enterWith ih function arguments

/-- The evaluation of an expression stays inside `value`. -/
theorem moves_evaluate (expression : Expression) : Moves value expression.evaluate :=
  Moves.get.bind fun _ => Moves.evaluateWith (bound.moves_invoke _) expression

/-- The execution of a statement stays inside `action`. -/
theorem moves_execute (statement : Statement) : Moves action statement.execute :=
  Moves.get.bind fun _ => bound.moves_executeWith (bound.moves_invoke _) statement

/-- The run of a program stays inside `action`: the flush changes nothing. -/
theorem moves_run (program : Program) : Moves action program.run := by
  have hflush : Moves action Evaluation.flush := by
    refine Moves.get.bind fun machine => ?_
    rcases machine.output.flushRefusal with _ | reason
    · exact Moves.pure _
    · exact Moves.fail _ _
  refine Moves.get.bind fun machine => ?_
  refine (bound.moves_executeProgramWith (bound.moves_invoke _) program .nil).bind fun last => ?_
  exact hflush.bind fun _ => Moves.pure last

end EffectBound

end Scriptlet
