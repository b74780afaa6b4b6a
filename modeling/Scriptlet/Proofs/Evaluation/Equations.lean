import Scriptlet.Proofs.Evaluation.Effect

/-!
# The equations of evaluation

How an expression, a statement or a call is evaluated through the evaluation of its parts. Calls are
evaluated by recursion on the number of frames that may still be opened; since every evaluation that
gives a value leaves as many of them as there were, the number need not be mentioned between the
parts.

* `SameExtent` says that as many frames are active and allowed after an evaluation as before it.
* `Evaluation.withOpenFrames` hands an evaluation the number of frames that may be opened.
* `Expression.evaluateAll`, `Statement.effect`, `Program.execute` and `Function.attempt` are
  evaluations that the entry points are made of.
* `evaluate_binary`, `evaluateAll_cons`, `execute_cons` and their companions are the equations.
-/

namespace Scriptlet

open Evaluation

variable {α β : Type}

/-! ## Extents -/

/-- Two machines have equally many active frames, and allow equally many. -/
structure SameExtent (before after : Machine) : Prop where
  depth : after.depth = before.depth
  depthLimit : after.depthLimit = before.depthLimit

instance : IsPreorder Machine SameExtent where
  refl _ := ⟨rfl, rfl⟩
  trans _ _ _ h h' := ⟨h'.depth.trans h.depth, h'.depthLimit.trans h.depthLimit⟩

theorem SameExtent.openFrames {before after : Machine} (h : SameExtent before after) :
    after.openFrames = before.openFrames := by
  unfold Machine.openFrames
  rw [h.depth, h.depthLimit]

/-- All of evaluation keeps the `SameExtent`. -/
theorem effectBound_sameExtent : EffectBound SameExtent SameExtent where
  action_of_value _ _ h := h
  record _ _ := ⟨rfl, rfl⟩
  write _ _ := ⟨rfl, rfl⟩
  read _ := ⟨rfl, rfl⟩
  draw _ _ := ⟨rfl, rfl⟩
  define _ _ := ⟨rfl, rfl⟩
  bind machine name value := by
    refine ⟨machine.depth_bind name value, ?_⟩
    obtain ⟨globals, frames, hbind⟩ := machine.exists_bind_eq name value
    rw [hbind]
  frame parameters before after h := by
    refine ⟨?_, h.depthLimit⟩
    -- The frame that is dropped is the one that was opened.
    have hdepth : after.frames.length = before.depth + 1 := h.depth
    rw [Machine.depth, Machine.pop, List.length_tail, hdepth, Nat.add_sub_cancel]

/-! ## Frames that may be opened -/

/-- An evaluation that is told by `Machine.openFrames` how many frames may be opened. -/
def Evaluation.withOpenFrames (evaluation : Nat → Evaluation α) : Evaluation α := do
  evaluation (← get).openFrames

/-- Evaluates expressions from left to right, as `Expression.evaluate` does with each. -/
def Expression.evaluateAll (expressions : List Expression) : Evaluation (List Value) :=
  withOpenFrames fun openFrames =>
    Expression.evaluateAllWith (Function.invoke openFrames) expressions

/-- Does what `statement` says, as `Statement.execute` does behind its event. -/
def Statement.effect (statement : Statement) : Evaluation Value :=
  withOpenFrames fun openFrames => statement.effectWith (Function.invoke openFrames)

/-- Executes statements in order. Gives the value of the last one, or `last` if there is none. -/
def Program.execute (last : Value) (program : Program) : Evaluation Value :=
  withOpenFrames fun openFrames => Program.executeWith (Function.invoke openFrames) last program

/-- Calls `function`, if a frame may be opened for the call. -/
def Function.attempt (function : Function) (arguments : List Value) (line : Nat) :
    Evaluation Value :=
  withOpenFrames fun openFrames => Function.invoke openFrames function arguments line

/-- The part `second` of an evaluation may open as many frames as the whole, since `first`
keeps the extent. All equations with two parts rest on this. -/
theorem withOpenFrames_bind {first : Nat → Evaluation α}
    (h : ∀ openFrames, Moves SameExtent (first openFrames))
    (second : Nat → α → Evaluation β) :
    (withOpenFrames fun openFrames => first openFrames >>= second openFrames) =
      withOpenFrames first >>= fun value => withOpenFrames fun openFrames =>
        second openFrames value := by
  funext machine
  have hextent := h machine.openFrames machine
  show (first machine.openFrames >>= second machine.openFrames) machine = _
  rcases hresult : first machine.openFrames machine with ⟨value, between⟩ | ⟨fault, between⟩
  · -- The machine behind the first part has as many frames to open as the one in front of it.
    have hfirst : withOpenFrames first machine = .ok value between := hresult
    rw [after_of_ok hresult] at hextent
    rw [bind_of_ok hresult, bind_of_ok hfirst]
    show _ = second between.openFrames value between
    rw [hextent.openFrames]
  · have hfirst : withOpenFrames first machine = .error fault between := hresult
    rw [bind_of_error hresult, bind_of_error hfirst]

theorem sameExtent_evaluateWith (openFrames : Nat) (expression : Expression) :
    Moves SameExtent (expression.evaluateWith (Function.invoke openFrames)) :=
  Moves.evaluateWith (effectBound_sameExtent.moves_invoke openFrames) expression

theorem sameExtent_evaluateAllWith (openFrames : Nat) (expressions : List Expression) :
    Moves SameExtent (Expression.evaluateAllWith (Function.invoke openFrames) expressions) :=
  Moves.evaluateAllWith (effectBound_sameExtent.moves_invoke openFrames) expressions

theorem sameExtent_evaluateAll (expressions : List Expression) :
    Moves SameExtent (Expression.evaluateAll expressions) :=
  fun machine => sameExtent_evaluateAllWith machine.openFrames expressions machine

theorem sameExtent_executeWith (openFrames : Nat) (statement : Statement) :
    Moves SameExtent (statement.executeWith (Function.invoke openFrames)) :=
  effectBound_sameExtent.moves_executeWith (effectBound_sameExtent.moves_invoke openFrames) _

/-! ## Expressions -/

theorem evaluate_identifier_of_find?_eq_some {name : String} {machine : Machine} {value : Value}
    (h : machine.current.find? name = some value) (line : Nat) :
    (Expression.identifier name line).evaluate machine = .ok value machine := by
  show Expression.evaluateWith _ _ _ = _
  rw [Expression.evaluateWith, bind_of_ok (get_apply machine), h]
  rfl

theorem evaluate_identifier_of_find?_eq_none {name : String} {machine : Machine}
    (h : machine.current.find? name = none) (line : Nat) :
    (Expression.identifier name line).evaluate machine =
      .error ⟨.undefinedVariable name, line, none⟩ machine := by
  show Expression.evaluateWith _ _ _ = _
  rw [Expression.evaluateWith, bind_of_ok (get_apply machine), h]
  rfl

theorem evaluate_string (text : String) (machine : Machine) :
    (Expression.string text).evaluate machine =
      .ok (.string (machine.current.interpolate text)) machine := rfl

theorem evaluate_binary (op : BinaryOp) (left right : Expression) (line : Nat) :
    (Expression.binary op left right line).evaluate = (do
      let leftValue ← left.evaluate
      let rightValue ← right.evaluate
      Evaluation.ofCause line (op.apply leftValue rightValue)) := by
  show (withOpenFrames fun openFrames =>
    Expression.evaluateWith (Function.invoke openFrames) (.binary op left right line)) = _
  simp only [Expression.evaluateWith]
  rw [withOpenFrames_bind fun openFrames => sameExtent_evaluateWith openFrames left]
  refine congrArg _ (funext fun leftValue => ?_)
  rw [withOpenFrames_bind fun openFrames => sameExtent_evaluateWith openFrames right]
  rfl

theorem evaluate_list (items : List Expression) :
    (Expression.list items).evaluate = (do return .list (← Expression.evaluateAll items)) := by
  show (withOpenFrames fun openFrames =>
    Expression.evaluateWith (Function.invoke openFrames) (.list items)) = _
  simp only [Expression.evaluateWith]
  rw [withOpenFrames_bind fun openFrames => sameExtent_evaluateAllWith openFrames items]
  rfl

theorem evaluate_call_of_find?_eq_none {name : String} {machine : Machine}
    (h : machine.functions.find? name = none) (arguments : List Expression) (line : Nat) :
    (Expression.call name arguments line).evaluate machine =
      .error ⟨.undefinedFunction name, line, none⟩ machine := by
  show Expression.evaluateWith _ _ _ = _
  rw [Expression.evaluateWith, bind_of_ok (get_apply machine), h]
  rfl

theorem evaluate_call_of_length_ne {name : String} {machine : Machine} {function : Function}
    (h : machine.functions.find? name = some function) {arguments : List Expression}
    (hlength : arguments.length ≠ function.arity) (line : Nat) :
    (Expression.call name arguments line).evaluate machine =
      .error ⟨.arityMismatch name function.arity arguments.length, line, none⟩ machine := by
  show Expression.evaluateWith _ _ _ = _
  rw [Expression.evaluateWith, bind_of_ok (get_apply machine), h]
  dsimp only
  rw [if_pos hlength]
  rfl

/-- With as many arguments as parameters, a call is `evaluateAll` and then `attempt`, on the
machine that the arguments leave, of the function that was found before. -/
theorem evaluate_call_of_length_eq {name : String} {machine : Machine} {function : Function}
    (h : machine.functions.find? name = some function) {arguments : List Expression}
    (hlength : arguments.length = function.arity) (line : Nat) :
    (Expression.call name arguments line).evaluate machine =
      (Expression.evaluateAll arguments >>= fun values => function.attempt values line) machine :=
    by
  have hbind := withOpenFrames_bind (fun openFrames => sameExtent_evaluateAllWith openFrames
    arguments) fun openFrames values => Function.invoke openFrames function values line
  show Expression.evaluateWith _ _ _ = _
  rw [Expression.evaluateWith, bind_of_ok (get_apply machine), h]
  dsimp only
  rw [if_neg fun hne => hne hlength]
  exact congrFun hbind machine

theorem evaluateAll_nil : Expression.evaluateAll [] = pure [] := rfl

theorem evaluateAll_cons (expression : Expression) (rest : List Expression) :
    Expression.evaluateAll (expression :: rest) = (do
      let value ← expression.evaluate
      let values ← Expression.evaluateAll rest
      return value :: values) := by
  show (withOpenFrames fun openFrames =>
    Expression.evaluateAllWith (Function.invoke openFrames) (expression :: rest)) = _
  simp only [Expression.evaluateAllWith]
  rw [withOpenFrames_bind fun openFrames => sameExtent_evaluateWith openFrames expression]
  refine congrArg _ (funext fun value => ?_)
  rw [withOpenFrames_bind fun openFrames => sameExtent_evaluateAllWith openFrames rest]
  rfl

/-! ## Calls -/

/-- Where no frame may be opened, `attempt` is a fault with the `depthLimit` of the machine. -/
theorem attempt_of_limit_le {machine : Machine} (h : machine.depthLimit ≤ machine.depth)
    (function : Function) (arguments : List Value) (line : Nat) :
    function.attempt arguments line machine =
      .error ⟨.depthExceeded machine.depthLimit, line, none⟩ machine := by
  have hopen : machine.openFrames = 0 := Nat.sub_eq_zero_of_le h
  show Function.invoke machine.openFrames function arguments line machine = _
  rw [hopen]
  rfl

/-- Any other call is logged and runs `function.body` in a frame with the arguments. -/
theorem attempt_of_lt_limit {machine : Machine} (h : machine.depth < machine.depthLimit)
    (function : Function) (arguments : List Value) (line : Nat) :
    function.attempt arguments line machine =
      Evaluation.inFrame (.ofParameters function.parameters arguments)
        (Program.execute .nil function.body)
        (machine.record (.calling function.name (machine.depth + 1))) := by
  obtain ⟨openFrames, hopen⟩ : ∃ openFrames, machine.openFrames = openFrames + 1 :=
    ⟨machine.openFrames - 1, by unfold Machine.openFrames; omega⟩
  show Function.invoke machine.openFrames function arguments line machine = _
  rw [hopen, Function.invoke, bind_of_ok (get_apply machine)]
  -- In the frame of the call there is one frame less to open.
  have hrest : openFrames = machine.depthLimit - (machine.depth + 1) := by
    unfold Machine.openFrames at hopen
    omega
  rw [hrest]
  rfl

/-! ## Statements -/

/-- The machine on which `statement` is done: its event is logged. -/
def Machine.starting (machine : Machine) (statement : Statement) : Machine :=
  machine.record (.executing statement.line machine.depth statement.description)

theorem execute_apply (statement : Statement) (machine : Machine) :
    statement.execute machine =
      Evaluation.within statement statement.effect (machine.starting statement) := rfl

theorem effect_assign (name : String) (value : Expression) (line : Nat) :
    (Statement.assign name value line).effect = value.evaluate >>= Evaluation.bindName name :=
  withOpenFrames_bind (fun openFrames => sameExtent_evaluateWith openFrames value)
    fun _ => Evaluation.bindName name

theorem effect_write (value : Expression) (line : Nat) :
    (Statement.write value line).effect = (do
      let value ← value.evaluate
      Evaluation.writeValue value line
      return value) :=
  withOpenFrames_bind (fun openFrames => sameExtent_evaluateWith openFrames value)
    fun _ value => Evaluation.writeValue value line >>= fun _ => pure value

theorem effect_random (name : String) (bound : Expression) (line : Nat) :
    (Statement.random name bound line).effect = (do
      let bound ← bound.evaluate
      Evaluation.bindName name (← Evaluation.drawBelow bound line)) :=
  withOpenFrames_bind (fun openFrames => sameExtent_evaluateWith openFrames bound)
    fun _ bound => Evaluation.drawBelow bound line >>= Evaluation.bindName name

theorem effect_read (name : String) (line : Nat) :
    (Statement.read name line).effect = (do
      Evaluation.bindName name (.string (← Evaluation.readLine line))) := rfl

theorem effect_define (name : String) (parameters : List String) (body : List Statement)
    (line : Nat) :
    (Statement.define name parameters body line).effect = (do
      Evaluation.defineFunction ⟨name, parameters, body⟩
      return .nil) := rfl

theorem effect_evaluate (value : Expression) (line : Nat) :
    (Statement.evaluate value line).effect = value.evaluate := rfl

theorem execute_nil (last : Value) : Program.execute last [] = pure last := rfl

theorem execute_cons (last : Value) (statement : Statement) (rest : Program) :
    Program.execute last (statement :: rest) = (do
      let value ← statement.execute
      Program.execute value rest) :=
  withOpenFrames_bind (fun openFrames => sameExtent_executeWith openFrames statement)
    fun openFrames value => Program.executeWith (Function.invoke openFrames) value rest

theorem run_eq (program : Program) :
    program.run = (do
      let value ← Program.execute .nil program
      Evaluation.flush
      return value) := rfl

end Scriptlet
