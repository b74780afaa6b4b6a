import Scriptlet.Proofs.Evaluation.Effect

/-!
# Evaluation ends

Expressions, statements and calls are evaluated by one recursion in which a call jumps to a body
that is no part of the calling statement and may have been defined a moment ago. Here this
recursion is written down as it stands, with fuel that every nested evaluation burns, and with the
depth limit looked up at every call. From a program, the functions and the depth limit one can tell
how much fuel is enough.

* `Expression.evaluateFor`, `Statement.executeFor`, `Function.invokeFor` and `Program.runFor` are
  the evaluation with fuel.
* `Expression.height`, `Program.height` and `FunctionTable.height` measure code.
* `Completes keeps fueled evaluation` says that an evaluation with fuel does what the evaluation
  without fuel does, on machines of a kind that the evaluation keeps.
* `Room` is this kind: all bodies have a bounded height, and the depth is known.
* `runFor_eq_run` is the result.
-/

namespace Scriptlet

open Evaluation

variable {α β : Type}

/-! ## Evaluation with fuel -/

/-- An evaluation that may run out of fuel. It then gives nothing. -/
abbrev FueledEvaluation := OptionT Evaluation

namespace FueledEvaluation

/-- There is no fuel. -/
def outOfFuel : FueledEvaluation α :=
  OptionT.mk (pure none)

/-- Runs `body` with `frame` as the innermost frame, as `Evaluation.inFrame` does. -/
def inFrame (frame : Environment) (body : FueledEvaluation α) : FueledEvaluation α :=
  OptionT.mk (Evaluation.inFrame frame body.run)

/-- Runs `body` as part of `statement`, as `Evaluation.within` does. -/
def within (statement : Statement) (body : FueledEvaluation α) : FueledEvaluation α :=
  OptionT.mk (Evaluation.within statement body.run)

end FueledEvaluation

mutual

/-- Evaluates an expression. Each of its parts, and the call that it is, has one less of
`fuel`. -/
def Expression.evaluateFor : (fuel : Nat) → Expression → FueledEvaluation Value
  | 0, _ => .outOfFuel
  | _ + 1, .literal value => pure (.integer value)
  | _ + 1, .string text => do
    return .string ((← get).current.interpolate text)
  | _ + 1, .identifier name line => do
    match (← get).current.find? name with
    | some value => pure value
    | none => liftM (Evaluation.fail (.undefinedVariable name) line)
  | fuel + 1, .binary op left right line => do
    let leftValue ← left.evaluateFor fuel
    let rightValue ← right.evaluateFor fuel
    liftM (Evaluation.ofCause line (op.apply leftValue rightValue))
  | fuel + 1, .list items => do
    return .list (← items.mapM (Expression.evaluateFor fuel))
  | fuel + 1, .call name arguments line => do
    match (← get).functions.find? name with
    | none => liftM (Evaluation.fail (.undefinedFunction name) line)
    | some function =>
      if arguments.length ≠ function.arity then
        liftM (Evaluation.fail (.arityMismatch name function.arity arguments.length) line)
      else
        let values ← arguments.mapM (Expression.evaluateFor fuel)
        function.invokeFor fuel values line

/-- Executes a statement. Its expression has one less of `fuel`. -/
def Statement.executeFor : (fuel : Nat) → Statement → FueledEvaluation Value
  | 0, _ => .outOfFuel
  | fuel + 1, statement => do
    Evaluation.record (.executing statement.line (← get).depth statement.description)
    FueledEvaluation.within statement do
      match statement with
      | .assign name value _ => do
        Evaluation.bindName name (← value.evaluateFor fuel)
      | .write value line => do
        let value ← value.evaluateFor fuel
        Evaluation.writeValue value line
        return value
      | .read name line => do
        Evaluation.bindName name (.string (← Evaluation.readLine line))
      | .random name bound line => do
        let bound ← bound.evaluateFor fuel
        Evaluation.bindName name (← Evaluation.drawBelow bound line)
      | .define name parameters body _ => do
        Evaluation.defineFunction ⟨name, parameters, body⟩
        return .nil
      | .evaluate value _ => value.evaluateFor fuel

/-- Calls a function, unless `depthLimit` frames are active. The statements of the body have
one less of the fuel. -/
def Function.invokeFor : (fuel : Nat) → Function → List Value → Nat → FueledEvaluation Value
  | 0, _, _, _ => .outOfFuel
  | fuel + 1, function, arguments, line => do
    let machine ← get
    if machine.depthLimit ≤ machine.depth then
      liftM (Evaluation.fail (.depthExceeded machine.depthLimit) line)
    else
      Evaluation.record (.calling function.name (machine.depth + 1))
      FueledEvaluation.inFrame (.ofParameters function.parameters arguments)
        (function.body.foldlM (fun _ statement => statement.executeFor fuel) .nil)

end

/-- Runs a program with `fuel` for each of its statements and flushes the output. -/
def Program.runFor (fuel : Nat) (program : Program) : FueledEvaluation Value := do
  let value ← program.foldlM (fun _ statement => statement.executeFor fuel) .nil
  Evaluation.flush
  return value

/-! ## Heights -/

mutual

/-- How deeply evaluations nest in an expression. A call counts twice, for itself and for
entering the body; what happens in the body does not count. -/
def Expression.height : Expression → Nat
  | .literal _ => 1
  | .string _ => 1
  | .identifier _ _ => 1
  | .binary _ left right _ => 1 + max left.height right.height
  | .list items => 1 + heightAll items
  | .call _ arguments _ => 2 + heightAll arguments

/-- The `Expression.height` of the highest of some expressions. -/
def Expression.heightAll : List Expression → Nat
  | [] => 0
  | e :: es => max e.height (heightAll es)

end

mutual

/-- The height of a statement. A definition is as high as if it executed its body. -/
def Statement.height : Statement → Nat
  | .assign _ value _ => 1 + value.height
  | .write value _ => 1 + value.height
  | .read _ _ => 1
  | .random _ bound _ => 1 + bound.height
  | .define _ _ body _ => 1 + Program.height body
  | .evaluate value _ => 1 + value.height

/-- The `Statement.height` of the highest statement of a program. -/
def Program.height : Program → Nat
  | [] => 0
  | statement :: rest => max statement.height (Program.height rest)

end

/-- The height of the highest body in `table`. -/
def FunctionTable.height (table : FunctionTable) : Nat :=
  (table.functions.map fun function => Program.height function.body).foldr max 0

/-- How much fuel is enough for a program: as much as its highest code takes, once for the
program and once for each frame that calls may open. It does not depend on the output, the
input or the random words. -/
def Program.fuelNeeded (program : Program) (functions : FunctionTable) (depthLimit : Nat) : Nat :=
  (depthLimit + 1) * max program.height functions.height

theorem FunctionTable.height_body_le {table : FunctionTable} {name : String}
    {function : Function} (h : table.find? name = some function) :
    Program.height function.body ≤ table.height := by
  have hmem : function ∈ table.functions := List.mem_of_find?_eq_some h
  unfold FunctionTable.height
  revert hmem
  generalize table.functions = functions
  intro hmem
  induction functions with
  | nil => cases hmem
  | cons first rest ih =>
    rw [List.map_cons, List.foldr_cons]
    rcases List.mem_cons.mp hmem with rfl | hrest
    · exact Nat.le_max_left _ _
    · exact Nat.le_trans (ih hrest) (Nat.le_max_right _ _)

/-! ## Evaluations that complete -/

theorem Evaluation.map_of_ok {evaluation : Evaluation α} {before after : Machine} {value : α}
    (h : evaluation before = .ok value after) (f : α → β) :
    (f <$> evaluation) before = .ok (f value) after := by
  simp only [Functor.map, EStateM.map, h]

theorem Evaluation.map_of_error {evaluation : Evaluation α} {before after : Machine}
    {fault : Fault} (h : evaluation before = .error fault after) (f : α → β) :
    (f <$> evaluation) before = .error fault after := by
  simp only [Functor.map, EStateM.map, h]

theorem Evaluation.map_within (f : α → β) (statement : Statement) (evaluation : Evaluation α) :
    f <$> Evaluation.within statement evaluation =
      Evaluation.within statement (f <$> evaluation) := by
  funext machine
  simp only [Functor.map, EStateM.map, Evaluation.within]
  rcases evaluation machine with ⟨value, after⟩ | ⟨fault, after⟩ <;> rfl

theorem Evaluation.map_inFrame (f : α → β) (frame : Environment) (evaluation : Evaluation α) :
    f <$> Evaluation.inFrame frame evaluation = Evaluation.inFrame frame (f <$> evaluation) := by
  funext machine
  simp only [Functor.map, EStateM.map, Evaluation.inFrame]
  rcases evaluation (machine.push frame) with ⟨value, after⟩ | ⟨fault, after⟩ <;> rfl

/-- The part `second` of an evaluation runs where there was fuel for `first` to give a value. -/
theorem FueledEvaluation.bind_of_some {first : FueledEvaluation α} {before between : Machine}
    {value : α} (h : first.run before = .ok (some value) between)
    (second : α → FueledEvaluation β) :
    (first >>= second).run before = (second value).run between :=
  bind_of_ok h _

/-- A fault in `first` is the end of the evaluation, however much fuel is left. -/
theorem FueledEvaluation.bind_of_error {first : FueledEvaluation α} {before between : Machine}
    {fault : Fault} (h : first.run before = .error fault between)
    (second : α → FueledEvaluation β) :
    (first >>= second).run before = .error fault between :=
  Evaluation.bind_of_error h _

/-- On machines that satisfy `keeps`, the evaluation `fueled` has enough fuel to do what
`evaluation` does, and the machine satisfies `keeps` afterwards. -/
def Completes (keeps : Machine → Prop) (fueled : FueledEvaluation α) (evaluation : Evaluation α) :
    Prop :=
  ∀ machine, keeps machine →
    fueled.run machine = (some <$> evaluation) machine ∧ keeps (evaluation.after machine)

namespace Completes

variable {keeps : Machine → Prop}

theorem lift {evaluation : Evaluation α}
    (h : ∀ machine, keeps machine → keeps (evaluation.after machine)) :
    Completes keeps (liftM evaluation) evaluation :=
  fun machine hkeeps => ⟨rfl, h machine hkeeps⟩

theorem pure (value : α) : Completes keeps (Pure.pure value) (Pure.pure value) :=
  fun _ h => ⟨rfl, h⟩

theorem fail (cause : Fault.Cause) (line : Nat) :
    Completes keeps (liftM (Evaluation.fail cause line : Evaluation α))
      (Evaluation.fail cause line) :=
  lift fun _ h => h

theorem ofCause (line : Nat) (result : Except Fault.Cause α) :
    Completes keeps (liftM (Evaluation.ofCause line result)) (Evaluation.ofCause line result) := by
  rcases result with cause | value
  · exact fail cause line
  · exact pure value

/-- Longer evaluations complete as their parts do. The second part starts on a machine that
satisfies `keeps`. -/
theorem bind {fueled : FueledEvaluation α} {evaluation : Evaluation α}
    {fueled' : α → FueledEvaluation β} {evaluation' : α → Evaluation β}
    (hfirst : Completes keeps fueled evaluation)
    (hsecond : ∀ value, Completes keeps (fueled' value) (evaluation' value)) :
    Completes keeps (fueled >>= fueled') (evaluation >>= evaluation') := by
  intro machine h
  obtain ⟨hrun, hafter⟩ := hfirst machine h
  -- The second part starts on a machine of the kind, as the first part keeps it.
  rcases hresult : evaluation machine with ⟨value, between⟩ | ⟨fault, between⟩
  · rw [map_of_ok hresult] at hrun
    rw [after_of_ok hresult] at hafter
    obtain ⟨hrun', hafter'⟩ := hsecond value between hafter
    rw [FueledEvaluation.bind_of_some hrun, after_bind, hresult, hrun', map_bind,
      bind_of_ok hresult]
    exact ⟨rfl, hafter'⟩
  · rw [map_of_error hresult] at hrun
    rw [after_of_error hresult] at hafter
    rw [FueledEvaluation.bind_of_error hrun, after_bind, hresult, map_bind,
      bind_of_error hresult]
    exact ⟨rfl, hafter⟩

/-- What follows a look at the machine need complete on the machines that satisfy `keeps`
only. -/
theorem get_bind {fueled : Machine → FueledEvaluation α} {evaluation : Machine → Evaluation α}
    (h : ∀ machine, keeps machine → Completes keeps (fueled machine) (evaluation machine)) :
    Completes keeps (get >>= fueled) (get >>= evaluation) :=
  fun machine hkeeps => h machine hkeeps machine hkeeps

theorem within {fueled : FueledEvaluation α} {evaluation : Evaluation α}
    (h : Completes keeps fueled evaluation) (statement : Statement) :
    Completes keeps (fueled.within statement) (Evaluation.within statement evaluation) := by
  intro machine hkeeps
  obtain ⟨hrun, hafter⟩ := h machine hkeeps
  rw [after_within]
  refine ⟨?_, hafter⟩
  show Evaluation.within statement fueled.run machine = _
  rw [map_within]
  unfold Evaluation.within
  rw [hrun]

/-- A frame is opened and dropped without fuel. Inside, the machines satisfy `keeps'`, which
tells of one frame more. -/
theorem inFrame {keeps' : Machine → Prop} {fueled : FueledEvaluation α} {evaluation : Evaluation α}
    (h : Completes keeps' fueled evaluation) {frame : Environment}
    (hpush : ∀ machine, keeps machine → keeps' (machine.push frame))
    (hpop : ∀ machine, keeps' machine → keeps machine.pop) :
    Completes keeps (fueled.inFrame frame) (Evaluation.inFrame frame evaluation) := by
  intro machine hkeeps
  -- The evaluation completes on the machine with the frame, and dropping the frame takes no fuel.
  obtain ⟨hrun, hafter⟩ := h _ (hpush machine hkeeps)
  rw [after_inFrame]
  refine ⟨?_, hpop _ hafter⟩
  show Evaluation.inFrame frame fueled.run machine = _
  rw [map_inFrame]
  unfold Evaluation.inFrame
  rw [hrun]

end Completes

/-! ## Machines with room -/

/-- No body of `machine` is higher than `bound`, and the machine has `depth` frames of at most
`limit`. The first field is what a definition during the run could break. -/
structure Room (bound depth limit : Nat) (machine : Machine) : Prop where
  bodies : ∀ {name function}, machine.functions.find? name = some function →
    Program.height function.body ≤ bound
  depth : machine.depth = depth
  depthLimit : machine.depthLimit = limit

namespace Room

variable {bound depth limit : Nat}

theorem of_height_le {machine : Machine} (h : machine.functions.height ≤ bound) :
    Room bound machine.depth machine.depthLimit machine :=
  ⟨fun hfound => Nat.le_trans (FunctionTable.height_body_le hfound) h, rfl, rfl⟩

theorem completes_record (event : Event) :
    Completes (Room bound depth limit) (liftM (record event)) (record event) :=
  .lift fun _ h => ⟨h.bodies, h.depth, h.depthLimit⟩

theorem completes_bindName (name : String) (value : Value) :
    Completes (Room bound depth limit) (liftM (bindName name value)) (bindName name value) := by
  refine .lift fun machine h => ?_
  have hdepth := machine.depth_bind name value
  obtain ⟨globals, frames, hbind⟩ := machine.exists_bind_eq name value
  show Room bound depth limit (machine.bind name value)
  rw [hbind] at hdepth ⊢
  exact ⟨h.bodies, hdepth.trans h.depth, h.depthLimit⟩

theorem completes_writeValue (value : Value) (line : Nat) :
    Completes (Room bound depth limit) (liftM (writeValue value line)) (writeValue value line) := by
  refine .lift fun machine h => ?_
  rcases hwritten : machine.output.writeLine value with ⟨output, _ | reason⟩
  · rw [after_of_ok (writeValue_of_taken hwritten line)]
    exact ⟨h.bodies, h.depth, h.depthLimit⟩
  · rw [after_of_error (writeValue_of_refused hwritten line)]
    exact ⟨h.bodies, h.depth, h.depthLimit⟩

theorem completes_readLine (line : Nat) :
    Completes (Room bound depth limit) (liftM (readLine line)) (readLine line) := by
  refine .lift fun machine h => ?_
  rcases hread : Input.readLine machine.input with ⟨error | text, input⟩
  · rw [after_of_error (readLine_of_error hread line)]
    exact ⟨h.bodies, h.depth, h.depthLimit⟩
  · rw [after_of_ok (readLine_of_ok hread line)]
    exact ⟨h.bodies, h.depth, h.depthLimit⟩

/-- Every draw ends, as the `words` of a machine are zeros from some point on. -/
theorem completes_drawBelow (value : Value) (line : Nat) :
    Completes (Room bound depth limit) (liftM (drawBelow value line)) (drawBelow value line) := by
  refine .lift fun machine h => ?_
  rcases nonneg_or_drawBelow_eq_fail value with ⟨n, hn, rfl⟩ | ⟨cause, hfail⟩
  · rw [after_of_ok (drawBelow_of_nonneg hn line machine)]
    exact ⟨h.bodies, h.depth, h.depthLimit⟩
  · rw [hfail]
    exact h

/-- A function is defined, so its body must not be higher than `bound`. -/
theorem completes_defineFunction {function : Function}
    (hbody : Program.height function.body ≤ bound) :
    Completes (Room bound depth limit) (liftM (defineFunction function))
      (defineFunction function) := by
  refine .lift fun machine h => ?_
  -- The new function is not too high, and the others were there before.
  have hbodies {name : String} {found : Function}
      (hfound : (machine.functions.define function).find? name = some found) :
      Program.height found.body ≤ bound := by
    rw [FunctionTable.find?_define] at hfound
    split at hfound
    · cases hfound
      exact hbody
    · exact h.bodies hfound
  rcases hold : machine.functions.find? function.name with _ | old
  · rw [after_of_ok (defineFunction_of_find?_eq_none hold)]
    exact ⟨hbodies, h.depth, h.depthLimit⟩
  · rw [after_of_ok (defineFunction_of_find?_eq_some hold)]
    exact ⟨hbodies, h.depth, h.depthLimit⟩

end Room

/-! ## There is enough fuel -/

/-- Calls of functions that are not higher than `bound` complete with one more than `fuel`. -/
def CallsComplete (bound depth limit fuel : Nat) (invoke : Invocation) : Prop :=
  ∀ {function fuel'}, Program.height function.body ≤ bound → 1 + fuel ≤ fuel' →
    ∀ arguments line, Completes (Room bound depth limit)
      (function.invokeFor fuel' arguments line) (invoke function arguments line)

section Invocation

variable {bound depth limit forCalls : Nat} {invoke : Invocation}

mutual

/-- An expression completes with its `height` more than `forCalls`, the fuel that is enough
for its calls. -/
theorem completes_evaluateFor (hcalls : CallsComplete bound depth limit forCalls invoke) :
    ∀ (e : Expression) {fuel : Nat}, e.height + forCalls ≤ fuel →
      Completes (Room bound depth limit) (e.evaluateFor fuel) (e.evaluateWith invoke)
  | .literal value, fuel + 1, _ => by
    rw [Expression.evaluateFor, Expression.evaluateWith]
    exact .pure _
  | .string text, fuel + 1, _ => by
    rw [Expression.evaluateFor, Expression.evaluateWith]
    exact .get_bind fun machine _ => .pure _
  | .identifier name line, fuel + 1, _ => by
    rw [Expression.evaluateFor, Expression.evaluateWith]
    refine .get_bind fun machine _ => ?_
    rcases machine.current.find? name with _ | found
    · exact .fail _ _
    · exact .pure _
  | .binary op left right line, fuel + 1, h => by
    rw [Expression.height] at h
    rw [Expression.evaluateFor, Expression.evaluateWith]
    refine .bind (completes_evaluateFor hcalls left (by omega)) fun leftValue => ?_
    refine .bind (completes_evaluateFor hcalls right (by omega)) fun rightValue => ?_
    exact .ofCause _ _
  | .list items, fuel + 1, h => by
    rw [Expression.height] at h
    rw [Expression.evaluateFor, Expression.evaluateWith]
    exact .bind (completes_evaluateAllFor hcalls items (by omega)) fun values => .pure _
  | .call name arguments line, fuel + 1, h => by
    rw [Expression.height] at h
    rw [Expression.evaluateFor, Expression.evaluateWith]
    refine .get_bind fun machine hroom => ?_
    -- Whatever function the table has by now, its body is not too high.
    rcases hfound : machine.functions.find? name with _ | function
    · exact .fail _ _
    · show Completes _ (ite _ _ _) (ite _ _ _)
      split
      · exact .fail _ _
      · refine .bind (completes_evaluateAllFor hcalls arguments (by omega)) fun values => ?_
        exact hcalls (hroom.bodies hfound) (by omega) values line
  | e, 0, h => by cases e <;> rw [Expression.height] at h <;> omega

theorem completes_evaluateAllFor (hcalls : CallsComplete bound depth limit forCalls invoke) :
    ∀ (es : List Expression) {fuel : Nat}, Expression.heightAll es + forCalls ≤ fuel →
      Completes (Room bound depth limit) (es.mapM (Expression.evaluateFor fuel))
        (Expression.evaluateAllWith invoke es)
  | [], fuel, _ => by
    rw [Expression.evaluateAllWith]
    exact .pure _
  | e :: es, fuel, h => by
    rw [Expression.heightAll] at h
    rw [Expression.evaluateAllWith, List.mapM_cons]
    refine .bind (completes_evaluateFor hcalls e (by omega)) fun head => ?_
    exact .bind (completes_evaluateAllFor hcalls es (by omega)) fun tail => .pure _

end

/-- A statement completes with its `height` more than `forCalls`. A definition adds a body,
which is no higher than the statement and so at most `bound`. -/
theorem completes_executeFor (hcalls : CallsComplete bound depth limit forCalls invoke)
    {statement : Statement} (hheight : statement.height ≤ bound) {fuel : Nat}
    (h : statement.height + forCalls ≤ fuel) :
    Completes (Room bound depth limit) (statement.executeFor fuel)
      (statement.executeWith invoke) := by
  have hexpression (e : Expression) {fuel' : Nat} (h : e.height + forCalls ≤ fuel') :=
    completes_evaluateFor hcalls e h
  rcases fuel with _ | fuel
  · cases statement <;> rw [Statement.height] at h <;> omega
  -- One unit of fuel is burnt for the statement, and its expressions are lower than it is.
  rw [Statement.executeFor.eq_def, Statement.executeWith]
  refine .get_bind fun machine _ => .bind (Room.completes_record _) fun _ => .within ?_ statement
  rcases statement with ⟨name, e, line⟩ | ⟨e, line⟩ | ⟨name, line⟩ | ⟨name, e, line⟩ |
    ⟨name, parameters, body, line⟩ | ⟨e, line⟩ <;> rw [Statement.height] at h hheight
  · exact .bind (hexpression e (by omega)) fun value => Room.completes_bindName _ _
  · refine .bind (hexpression e (by omega)) fun value => ?_
    exact .bind (Room.completes_writeValue value line) fun _ => .pure _
  · exact .bind (Room.completes_readLine line) fun text => Room.completes_bindName _ _
  · refine .bind (hexpression e (by omega)) fun value => ?_
    exact .bind (Room.completes_drawBelow value line) fun _ => Room.completes_bindName _ _
  · exact .bind (Room.completes_defineFunction (by simp only; omega)) fun _ => .pure _
  · exact hexpression e (by omega)

theorem completes_executeProgramFor (hcalls : CallsComplete bound depth limit forCalls invoke)
    {program : Program} (hheight : program.height ≤ bound) {fuel : Nat}
    (h : program.height + forCalls ≤ fuel) (last : Value) :
    Completes (Room bound depth limit)
      (program.foldlM (fun _ statement => statement.executeFor fuel) last)
      (Program.executeWith invoke last program) := by
  induction program generalizing last with
  | nil => exact .pure last
  | cons statement rest ih =>
    rw [Program.height] at h hheight
    rw [Program.executeWith, List.foldlM_cons]
    refine .bind (completes_executeFor hcalls (by omega) (by omega)) fun value => ?_
    exact ih (by omega) (by omega) value

end Invocation

/-- Calls complete with fuel `bound` for each of the `limit - depth` frames that may still be
opened. By induction on the number of these frames. -/
theorem callsComplete_invoke (bound depth limit : Nat) :
    CallsComplete bound depth limit ((limit - depth) * bound)
      (Function.invoke (limit - depth)) := by
  intro function fuel hbody h arguments line
  obtain ⟨openFrames, hopen⟩ : ∃ openFrames, openFrames = limit - depth := ⟨_, rfl⟩
  rw [← hopen] at h ⊢
  induction openFrames generalizing depth function fuel arguments line with
  | zero =>
    obtain ⟨fuel, rfl⟩ : ∃ fuel', fuel = fuel' + 1 := ⟨fuel - 1, by omega⟩
    rw [Function.invokeFor, Function.invoke]
    refine .get_bind fun machine hroom => ?_
    rw [if_pos (by rw [hroom.depth, hroom.depthLimit]; omega)]
    exact .fail _ _
  | succ openFrames ih =>
    rw [Nat.succ_mul] at h
    obtain ⟨fuel, rfl⟩ : ∃ fuel', fuel = fuel' + 1 := ⟨fuel - 1, by omega⟩
    rw [Function.invokeFor, Function.invoke]
    refine .get_bind fun machine hroom => ?_
    rw [if_neg (by rw [hroom.depth, hroom.depthLimit]; omega)]
    refine .bind (Room.completes_record _) fun _ => ?_
    -- The body runs one frame deeper, where one frame less may be opened.
    have hcalls : CallsComplete bound (depth + 1) limit (openFrames * bound)
        (Function.invoke openFrames) :=
      fun hbody h arguments line => ih (depth + 1) hbody arguments line h (by omega)
    refine .inFrame (completes_executeProgramFor hcalls hbody (by omega) .nil) ?_ ?_
    · exact fun machine h => ⟨h.bodies, congrArg (· + 1) h.depth, h.depthLimit⟩
    · refine fun machine h => ⟨h.bodies, ?_, h.depthLimit⟩
      rw [Machine.depth, Machine.pop, List.length_tail, ← Machine.depth, h.depth]
      rfl

/-- **Every program ends on every machine.** With at least `program.fuelNeeded`, which the
program, the functions and the depth limit tell, its run with `fuel` does not run out of it,
and it does what `program.run` does, however much fuel there is. -/
theorem runFor_eq_run (program : Program) (machine : Machine) {fuel : Nat}
    (h : program.fuelNeeded machine.functions machine.depthLimit ≤ fuel) :
    (program.runFor fuel).run machine = (some <$> program.run) machine := by
  -- Every body that can run is in the table now or stands in the program.
  let bound := max program.height machine.functions.height
  have hroom : Room bound machine.depth machine.depthLimit machine :=
    .of_height_le (Nat.le_max_right _ _)
  have hprogram : program.height ≤ bound := Nat.le_max_left _ _
  have hfuel : program.height + machine.openFrames * bound ≤ fuel := by
    calc program.height + machine.openFrames * bound
        ≤ bound + machine.depthLimit * bound :=
          Nat.add_le_add hprogram (Nat.mul_le_mul_right _ (Nat.sub_le _ _))
      _ = program.fuelNeeded machine.functions machine.depthLimit := by
          rw [Program.fuelNeeded, Nat.succ_mul, Nat.add_comm]
      _ ≤ fuel := h
  have hflush : Completes (Room bound machine.depth machine.depthLimit) (liftM Evaluation.flush)
      Evaluation.flush := by
    refine .lift fun after hafter => ?_
    rwa [after_flush]
  have hrun := completes_executeProgramFor (callsComplete_invoke bound _ _) hprogram hfuel .nil
  exact ((hrun.bind fun value => hflush.bind fun _ => .pure value) machine hroom).1

/-- A function that puts another one in its own place and then calls it. -/
def Program.fleeing : Program :=
  [.define "flee" []
      [.define "flee" [] [.evaluate (.call "flee" [] 2) 2] 2, .evaluate (.call "flee" [] 3) 3] 1,
    .evaluate (.call "flee" [] 4) 4]

/-- The flight of `Program.fleeing` ends at the depth limit, with the fuel that one can tell
beforehand. -/
theorem fleeing_ends :
    Program.fleeing.fuelNeeded .empty 1 = 10 ∧
      match (Program.fleeing.runFor 10).run (.fresh .unlimited [] (.scripted []) 1) with
      | .ok _ _ => False
      | .error fault _ => fault = ⟨.depthExceeded 1, 3, some "call to `flee`"⟩ := by
  have hneeded : Program.fleeing.fuelNeeded .empty 1 = 10 := by decide
  refine ⟨hneeded, ?_⟩
  rw [runFor_eq_run Program.fleeing (.fresh .unlimited [] (.scripted []) 1)
    (Nat.le_of_eq hneeded)]
  rfl

end Scriptlet
