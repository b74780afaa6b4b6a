import Scriptlet.Proofs.Arithmetic
import Scriptlet.Proofs.Evaluation.Points

/-!
# Origins of faults

Where a fault comes from. A point of a run ends in a fault because one of its parts does, or because
it raises the fault itself. So every fault of a run is raised at some point of it, and nothing on
the way from there to the end of the run swallows it or puts another one in its place.

* `Point.Raises` lists how a point raises a fault when none of its parts ends in one.
* `Point.result_eq_error_iff` is the step from the parts of a point to the point.
* `Surfaces` says what becomes of a fault on its way out.
* `Program.run_eq_error_iff`: a run ends in a fault of its statements or in that of the flush.
* `Program.run_of_mem_history`: a fault at any point of a run is the fault of the run.
* `Program.exists_raises_of_run`: the fault of a run is raised at some point of it, or by the flush.
* `Point.Raises.call_of_depthExceeded`: only a call raises the fault of the depth limit.
-/

namespace Scriptlet

open Evaluation

variable {α β : Type}

/-- What a point raises itself: its `parts` have given values, and what it does with these
fails. -/
inductive Point.Raises : Point → Fault → Machine → Prop where
  | undefinedVariable {name : String} {line : Nat} {machine : Machine}
      (h : machine.current.find? name = none) :
      Raises ⟨.expression (.identifier name line), machine⟩
        ⟨.undefinedVariable name, line, none⟩ machine
  | operator {op : BinaryOp} {left right : Expression} {line : Nat}
      {machine between after : Machine} {a b : Value} {cause : Fault.Cause}
      (hleft : left.evaluate machine = .ok a between)
      (hright : right.evaluate between = .ok b after) (h : op.apply a b = .error cause) :
      Raises ⟨.expression (.binary op left right line), machine⟩ ⟨cause, line, none⟩ after
  | undefinedFunction {name : String} {arguments : List Expression} {line : Nat}
      {machine : Machine} (h : machine.functions.find? name = none) :
      Raises ⟨.expression (.call name arguments line), machine⟩
        ⟨.undefinedFunction name, line, none⟩ machine
  | arityMismatch {name : String} {arguments : List Expression} {line : Nat} {machine : Machine}
      {function : Function} (hfound : machine.functions.find? name = some function)
      (h : arguments.length ≠ function.arity) :
      Raises ⟨.expression (.call name arguments line), machine⟩
        ⟨.arityMismatch name function.arity arguments.length, line, none⟩ machine
  | depthExceeded {function : Function} {arguments : List Value} {line : Nat} {machine : Machine}
      (h : machine.depthLimit ≤ machine.depth) :
      Raises ⟨.call function arguments line, machine⟩
        ⟨.depthExceeded machine.depthLimit, line, none⟩ machine
  | write {operand : Expression} {line : Nat} {machine between : Machine} {value : Value}
      {output : Sink} {reason : String}
      (hoperand : operand.evaluate (machine.starting (.write operand line)) = .ok value between)
      (h : between.output.writeLine value = (output, some reason)) :
      Raises ⟨.statement (.write operand line), machine⟩
        ⟨.transfer (.refused reason), line, some (Statement.write operand line).description⟩
        { between with output := output }
  | read {name : String} {line : Nat} {machine : Machine} {error : TransferError}
      {input : List UInt8} (h : Input.readLine machine.input = (.error error, input)) :
      Raises ⟨.statement (.read name line), machine⟩
        ⟨.transfer error, line, some (Statement.read name line).description⟩
        { machine.starting (.read name line) with input := input }
  | random {name : String} {operand : Expression} {line : Nat} {machine after : Machine}
      {bound : Value} {cause : Fault.Cause}
      (hoperand : operand.evaluate (machine.starting (.random name operand line)) =
        .ok bound after)
      (h : drawBelow bound line after = .error ⟨cause, line, none⟩ after) :
      Raises ⟨.statement (.random name operand line), machine⟩
        ⟨cause, line, some (Statement.random name operand line).description⟩ after

/-- A fault of a part as the fault of the whole: a statement puts its name to it by
`Fault.within`. -/
def Task.claim : Task → Fault → Fault
  | .expression _, fault => fault
  | .statement tree, fault => fault.within tree
  | .call _ _ _, fault => fault

/-- The machine of the whole, given the one that a part leaves behind: a `.call` drops its
frame. -/
def Task.leave : Task → Machine → Machine
  | .expression _, machine => machine
  | .statement _, machine => machine
  | .call _ _ _, machine => machine.pop

/-! ## Faults of longer evaluations -/

namespace Evaluation

/-- A longer evaluation ends in a fault in `first`, or in `second` where `first` gave a value. -/
theorem bind_eq_error_iff {first : Evaluation α} {second : α → Evaluation β}
    {before after : Machine} {fault : Fault} :
    (first >>= second) before = .error fault after ↔
      first before = .error fault after ∨
        ∃ value between, first before = .ok value between ∧
          second value between = .error fault after := by
  rcases h : first before with ⟨value, between⟩ | ⟨fault', between⟩
  · rw [bind_of_ok h]
    grind
  · rw [bind_of_error h]
    grind

theorem pure_ne_error {value : α} {before after : Machine} {fault : Fault} :
    ¬ (pure value : Evaluation α) before = .error fault after :=
  fun h => by cases h

theorem ofCause_eq_error_iff {line : Nat} {result : Except Fault.Cause α} {before after : Machine}
    {fault : Fault} :
    ofCause line result before = .error fault after ↔
      ∃ cause, result = .error cause ∧ fault = ⟨cause, line, none⟩ ∧ after = before := by
  rcases result with cause | value
  · constructor
    · intro h
      cases h
      exact ⟨cause, rfl, rfl, rfl⟩
    · rintro ⟨_, hcause, rfl, rfl⟩
      cases hcause
      rfl
  · constructor
    · intro h
      cases h
    · rintro ⟨_, hcause, -⟩
      cases hcause

theorem within_eq_error_iff {statement : Statement} {evaluation : Evaluation α}
    {before after : Machine} {fault : Fault} :
    within statement evaluation before = .error fault after ↔
      ∃ fault', evaluation before = .error fault' after ∧ fault = fault'.within statement := by
  unfold within
  rcases evaluation before with ⟨value, between⟩ | ⟨fault', between⟩ <;> grind

theorem inFrame_eq_error_iff {frame : Environment} {evaluation : Evaluation α}
    {before after : Machine} {fault : Fault} :
    inFrame frame evaluation before = .error fault after ↔
      ∃ after', evaluation (before.push frame) = .error fault after' ∧ after = after'.pop := by
  unfold inFrame
  rcases evaluation (before.push frame) with ⟨value, between⟩ | ⟨fault', between⟩ <;> grind

theorem flush_eq_error_iff {before after : Machine} {fault : Fault} :
    flush before = .error fault after ↔
      ∃ reason, before.output.flushRefusal = some reason ∧
        fault = ⟨.transfer (.refused reason), 0, none⟩ ∧ after = before := by
  rcases hrefusal : before.output.flushRefusal with _ | reason
  · rw [flush_of_not_refused hrefusal]
    grind
  · rw [flush_of_refused hrefusal]
    grind

end Evaluation

/-! ## From the parts to the point -/

/-- Evaluating `trees` in a row ends in a fault exactly if one of `Expression.points` does. -/
theorem evaluateAll_eq_error_iff {trees : List Expression} {machine after : Machine}
    {fault : Fault} :
    Expression.evaluateAll trees machine = .error fault after ↔
      ∃ point ∈ Expression.points trees machine, point.result = .error fault after := by
  induction trees generalizing machine with
  | nil => simp [evaluateAll_nil, pure_ne_error]
  | cons tree trees ih =>
    -- The first expression fails, or it has a value and one of the others fails.
    rw [evaluateAll_cons, bind_eq_error_iff, Expression.points_cons]
    simp only [bind_eq_error_iff, pure_ne_error, and_false, exists_false, or_false, ih,
      List.mem_cons, exists_eq_or_imp, exists_mem_pointsAfter_iff]
    exact Iff.rfl

/-- Executing `trees` in a row ends in a fault exactly if one of `Program.points` does. -/
theorem execute_eq_error_iff {trees : Program} {last : Value} {machine after : Machine}
    {fault : Fault} :
    Program.execute last trees machine = .error fault after ↔
      ∃ point ∈ Program.points trees machine, point.result = .error fault after := by
  induction trees generalizing machine last with
  | nil => simp [execute_nil, pure_ne_error]
  | cons tree trees ih =>
    rw [execute_cons, bind_eq_error_iff, Program.points_cons]
    simp only [ih, List.mem_cons, exists_eq_or_imp, exists_mem_pointsAfter_iff]
    exact Iff.rfl

theorem exists_mem_nil_or_iff {P : Point → Prop} {Q : Prop} :
    (∃ part ∈ ([] : List Point), P part) ∨ Q ↔ Q := by
  simp only [List.not_mem_nil, false_and, exists_false, false_or]

/-- The case `call` of `evaluate_eq_error_iff`. The arguments are parts, and so is the attempt
behind them. -/
theorem evaluate_call_eq_error_iff {name : String} {arguments : List Expression} {line : Nat}
    {machine after : Machine} {fault : Fault} :
    (Expression.call name arguments line).evaluate machine = .error fault after ↔
      (∃ part ∈ Point.parts ⟨.expression (.call name arguments line), machine⟩,
        part.result = .error fault after) ∨
        Point.Raises ⟨.expression (.call name arguments line), machine⟩ fault after := by
  rcases hfound : machine.functions.find? name with _ | function
  · rw [Point.parts_call_of_find?_eq_none hfound, exists_mem_nil_or_iff,
      evaluate_call_of_find?_eq_none hfound]
    constructor
    · intro h
      cases h
      exact .undefinedFunction hfound
    · intro h
      cases h with
      | undefinedFunction _ => rfl
      | arityMismatch hfound' _ =>
        rw [hfound] at hfound'
        cases hfound'
  by_cases hlength : arguments.length = function.arity
  -- With a function and the right number of arguments, every fault comes out of a part.
  · rw [Point.parts_call_of_length_eq hfound hlength,
      evaluate_call_of_length_eq hfound hlength, bind_eq_error_iff]
    simp only [List.mem_append, or_and_right, exists_or, ← evaluateAll_eq_error_iff,
      mem_pointsAfter, List.mem_singleton]
    constructor
    · rintro (h | ⟨values, between, hvalues, h⟩)
      · exact .inl (.inl h)
      · exact .inl (.inr ⟨_, ⟨values, between, hvalues, rfl⟩, h⟩)
    · rintro ((h | ⟨_, ⟨values, between, hvalues, rfl⟩, h⟩) | h)
      · exact .inl h
      · exact .inr ⟨values, between, hvalues, h⟩
      · -- The function was found and has the right number of parameters.
        cases h with
        | undefinedFunction hfound' =>
          rw [hfound] at hfound'
          cases hfound'
        | arityMismatch hfound' hlength' =>
          rw [hfound] at hfound'
          cases hfound'
          exact absurd hlength hlength'
  · rw [Point.parts_call_of_length_ne hfound hlength, exists_mem_nil_or_iff,
      evaluate_call_of_length_ne hfound hlength]
    constructor
    · intro h
      cases h
      exact .arityMismatch hfound hlength
    · intro h
      cases h with
      | undefinedFunction hfound' =>
        rw [hfound] at hfound'
        cases hfound'
      | arityMismatch hfound' _ =>
        rw [hfound] at hfound'
        cases hfound'
        rfl

/-- An expression ends in a fault when a part of it does or when it `Raises` the fault itself. -/
theorem evaluate_eq_error_iff {tree : Expression} {machine after : Machine} {fault : Fault} :
    tree.evaluate machine = .error fault after ↔
      (∃ part ∈ Point.parts ⟨.expression tree, machine⟩, part.result = .error fault after) ∨
        Point.Raises ⟨.expression tree, machine⟩ fault after := by
  rcases tree with n | text | ⟨name, line⟩ | ⟨op, left, right, line⟩ | items |
    ⟨name, arguments, line⟩
  -- Literals and strings always have a value.
  · refine Iff.trans ⟨fun h => ?_, fun h => ?_⟩ exists_mem_nil_or_iff.symm <;> cases h
  · refine Iff.trans ⟨fun h => ?_, fun h => ?_⟩ exists_mem_nil_or_iff.symm <;> cases h
  · refine Iff.trans ⟨fun h => ?_, fun h => ?_⟩ exists_mem_nil_or_iff.symm
    · rcases hfound : machine.current.find? name with _ | value
      · rw [evaluate_identifier_of_find?_eq_none hfound] at h
        cases h
        exact .undefinedVariable hfound
      · rw [evaluate_identifier_of_find?_eq_some hfound] at h
        cases h
    · cases h with
      | undefinedVariable hfound => exact evaluate_identifier_of_find?_eq_none hfound line
  · have hparts : Point.parts ⟨.expression (.binary op left right line), machine⟩ =
        Expression.points [left, right] machine := rfl
    rw [hparts, ← evaluateAll_eq_error_iff, evaluate_binary, evaluateAll_cons, evaluateAll_cons]
    simp only [bind_eq_error_iff, ofCause_eq_error_iff, evaluateAll_nil, pure_ne_error, and_false,
      exists_false, or_false]
    -- An operand fails, or both have values that the operator refuses.
    constructor
    · rintro (hleft | ⟨a, between, hleft, hright | ⟨b, _, hright, cause, h, rfl, rfl⟩⟩)
      · exact .inl (.inl hleft)
      · exact .inl (.inr ⟨a, between, hleft, hright⟩)
      · exact .inr (.operator hleft hright h)
    · rintro ((hleft | ⟨a, between, hleft, hright⟩) | h)
      · exact .inl hleft
      · exact .inr ⟨a, between, hleft, .inl hright⟩
      · cases h with
        | operator hleft hright h =>
          exact .inr ⟨_, _, hleft, .inr ⟨_, _, hright, _, h, rfl, rfl⟩⟩
  · have hparts : Point.parts ⟨.expression (.list items), machine⟩ =
        Expression.points items machine := rfl
    rw [hparts, ← evaluateAll_eq_error_iff, evaluate_list, bind_eq_error_iff]
    simp only [pure_ne_error, and_false, exists_false]
    -- A list that has values for its items raises nothing.
    refine or_congr Iff.rfl ⟨False.elim, fun h => ?_⟩
    cases h
  · exact evaluate_call_eq_error_iff

theorem bindName_ne_error {name : String} {value : Value} {before after : Machine}
    {fault : Fault} : ¬ bindName name value before = .error fault after :=
  fun h => by cases h

theorem defineFunction_ne_error {function : Function} {before after : Machine} {fault : Fault} :
    ¬ defineFunction function before = .error fault after := by
  rcases hfound : before.functions.find? function.name with _ | old
  · rw [defineFunction_of_find?_eq_none hfound]
    exact fun h => by cases h
  · rw [defineFunction_of_find?_eq_some hfound]
    exact fun h => by cases h

/-- A line is a fault when the output refuses it, with the `reason` that the output gives. -/
theorem writeValue_eq_error_iff {value : Value} {line : Nat} {before after : Machine}
    {fault : Fault} :
    writeValue value line before = .error fault after ↔
      ∃ output reason, before.output.writeLine value = (output, some reason) ∧
        fault = ⟨.transfer (.refused reason), line, none⟩ ∧
        after = { before with output := output } := by
  rcases h : before.output.writeLine value with ⟨output, _ | reason⟩
  · rw [writeValue_of_taken h]
    grind
  · rw [writeValue_of_refused h]
    grind

/-- The faults of `readLine` are those of `Input.readLine`, for want of a line or of text in
it. -/
theorem readLine_eq_error_iff {line : Nat} {before after : Machine} {fault : Fault} :
    readLine line before = .error fault after ↔
      ∃ error input, Input.readLine before.input = (.error error, input) ∧
        fault = ⟨.transfer error, line, none⟩ ∧ after = { before with input := input } := by
  rcases h : Input.readLine before.input with ⟨error | text, input⟩
  · rw [readLine_of_error h]
    grind
  · rw [readLine_of_ok h]
    grind

/-- A draw that is a fault has the `line` it was made for and leaves the machine alone. -/
theorem eq_of_drawBelow_eq_error {bound : Value} {line : Nat} {before after : Machine}
    {fault : Fault} (h : drawBelow bound line before = .error fault after) :
    fault = ⟨fault.cause, line, none⟩ ∧ after = before := by
  rcases nonneg_or_drawBelow_eq_fail bound with ⟨n, hn, rfl⟩ | ⟨cause, hfail⟩
  · rw [drawBelow_of_nonneg hn] at h
    cases h
  · rw [hfail] at h
    cases h
    exact ⟨rfl, rfl⟩

/-- The part of a statement is its `operand?`, on the machine on which the statement has been
logged. -/
theorem exists_mem_parts_statement {tree : Statement} {machine : Machine} {P : Point → Prop} :
    (∃ part ∈ Point.parts ⟨.statement tree, machine⟩, P part) ↔
      ∃ operand, tree.operand? = some operand ∧
        P ⟨.expression operand, machine.starting tree⟩ := by
  simp only [Point.parts_statement, Option.mem_toList, Option.map_eq_some_iff]
  constructor
  · rintro ⟨_, ⟨operand, hoperand, rfl⟩, h⟩
    exact ⟨operand, hoperand, h⟩
  · rintro ⟨operand, hoperand, h⟩
    exact ⟨_, ⟨operand, hoperand, rfl⟩, h⟩

/-- A statement ends in a fault when its expression does or when it `Raises` the fault itself.
It puts its name to faults that have none. -/
theorem execute_statement_eq_error_iff {tree : Statement} {machine after : Machine}
    {fault : Fault} :
    tree.execute machine = .error fault after ↔
      (∃ part ∈ Point.parts ⟨.statement tree, machine⟩, ∃ fault',
        part.result = .error fault' after ∧ fault = fault'.within tree) ∨
        Point.Raises ⟨.statement tree, machine⟩ fault after := by
  rw [execute_apply, within_eq_error_iff, exists_mem_parts_statement]
  -- Without an operand there is no part, and with one there is one part.
  rcases tree with ⟨name, e, line⟩ | ⟨e, line⟩ | ⟨name, line⟩ | ⟨name, e, line⟩ |
    ⟨name, parameters, body, line⟩ | ⟨e, line⟩ <;>
    simp only [Statement.operand?, Option.some.injEq, exists_eq_left', reduceCtorEq, false_and,
      exists_false, false_or]
  · -- A binding raises nothing, so the fault is that of the expression.
    rw [effect_assign]
    simp only [bind_eq_error_iff, bindName_ne_error, and_false, exists_false, or_false]
    refine ⟨.inl, fun h => h.elim id fun h => ?_⟩
    cases h
  · rw [effect_write]
    simp only [bind_eq_error_iff, pure_ne_error, writeValue_eq_error_iff, and_false, exists_false,
      or_false]
    constructor
    · rintro ⟨fault', h | ⟨value, between, hvalue, output, reason, h, rfl, rfl⟩, rfl⟩
      · exact .inl ⟨fault', h, rfl⟩
      · exact .inr (.write hvalue h)
    · rintro (⟨fault', h, rfl⟩ | h)
      · exact ⟨fault', .inl h, rfl⟩
      · cases h with
        | write hvalue h => exact ⟨_, .inr ⟨_, _, hvalue, _, _, h, rfl, rfl⟩, rfl⟩
  · rw [effect_read]
    simp only [bind_eq_error_iff, bindName_ne_error, readLine_eq_error_iff, and_false,
      exists_false, or_false]
    constructor
    · rintro ⟨fault', ⟨error, input, h, rfl, rfl⟩, rfl⟩
      exact .read h
    · intro h
      cases h with
      | read h => exact ⟨_, ⟨_, _, h, rfl, rfl⟩, rfl⟩
  · rw [effect_random]
    simp only [bind_eq_error_iff, bindName_ne_error, and_false, exists_false, or_false]
    constructor
    · rintro ⟨fault', h | ⟨bound, between, hbound, h⟩, rfl⟩
      · exact .inl ⟨fault', h, rfl⟩
      · -- A draw that fails has no statement to its name yet.
        obtain ⟨hfault, rfl⟩ := eq_of_drawBelow_eq_error h
        rw [hfault] at h ⊢
        exact .inr (.random hbound h)
    · rintro (⟨fault', h, rfl⟩ | h)
      · exact ⟨fault', .inl h, rfl⟩
      · cases h with
        | random hbound h => exact ⟨_, .inr ⟨_, _, hbound, h⟩, rfl⟩
  · rw [effect_define]
    simp only [bind_eq_error_iff, pure_ne_error, defineFunction_ne_error, and_false, exists_false,
      or_false, false_and, false_iff]
    intro h
    cases h
  · rw [effect_evaluate]
    refine ⟨.inl, fun h => h.elim id fun h => ?_⟩
    cases h

/-- A fault of `attempt` comes from a part, a statement of the body, and then the frame is
dropped, or the call `Raises` it for want of a frame. -/
theorem attempt_eq_error_iff {function : Function} {arguments : List Value} {line : Nat}
    {machine after : Machine} {fault : Fault} :
    function.attempt arguments line machine = .error fault after ↔
      (∃ part ∈ Point.parts ⟨.call function arguments line, machine⟩, ∃ after',
        part.result = .error fault after' ∧ after = after'.pop) ∨
        Point.Raises ⟨.call function arguments line, machine⟩ fault after := by
  rcases Nat.lt_or_ge machine.depth machine.depthLimit with hroom | hlimit
  · rw [Point.parts_call_of_lt_limit hroom, attempt_of_lt_limit hroom, inFrame_eq_error_iff]
    constructor
    · rintro ⟨after', h, rfl⟩
      obtain ⟨part, hpart, hresult⟩ := execute_eq_error_iff.mp h
      exact .inl ⟨part, hpart, after', hresult, rfl⟩
    · rintro (⟨part, hpart, after', hresult, rfl⟩ | h)
      · exact ⟨after', execute_eq_error_iff.mpr ⟨part, hpart, hresult⟩, rfl⟩
      · cases h with
        | depthExceeded hlimit => exact absurd hroom (Nat.not_lt.mpr hlimit)
  -- At the limit there are no parts, and the point raises the fault itself.
  · rw [Point.parts_call_of_limit_le hlimit, exists_mem_nil_or_iff, attempt_of_limit_le hlimit]
    constructor
    · intro h
      cases h
      exact .depthExceeded hlimit
    · intro h
      cases h with
      | depthExceeded _ => rfl

/-- A point ends in a fault when a part of it does, as changed by `Task.claim` and
`Task.leave`, or when it `Raises` the fault itself. -/
theorem Point.result_eq_error_iff {point : Point} {fault : Fault} {after : Machine} :
    point.result = .error fault after ↔
      (∃ part ∈ point.parts, ∃ fault' after', part.result = .error fault' after' ∧
        fault = point.task.claim fault' ∧ after = point.task.leave after') ∨
        point.Raises fault after := by
  -- Each kind of task has its own equivalence; what is left is the claim and the leave of the
  -- task.
  obtain ⟨tree | tree | ⟨function, arguments, line⟩, machine⟩ := point
  · refine evaluate_eq_error_iff.trans (or_congr ⟨?_, ?_⟩ Iff.rfl)
    · rintro ⟨part, hpart, h⟩
      exact ⟨part, hpart, fault, after, h, rfl, rfl⟩
    · rintro ⟨part, hpart, _, _, h, rfl, rfl⟩
      exact ⟨part, hpart, h⟩
  · refine execute_statement_eq_error_iff.trans (or_congr ⟨?_, ?_⟩ Iff.rfl)
    · rintro ⟨part, hpart, fault', h, rfl⟩
      exact ⟨part, hpart, fault', after, h, rfl, rfl⟩
    · rintro ⟨part, hpart, fault', _, h, rfl, rfl⟩
      exact ⟨part, hpart, fault', h, rfl⟩
  · refine attempt_eq_error_iff.trans (or_congr ⟨?_, ?_⟩ Iff.rfl)
    · rintro ⟨part, hpart, after', h, rfl⟩
      exact ⟨part, hpart, fault, after', h, rfl, rfl⟩
    · rintro ⟨part, hpart, _, after', h, rfl, rfl⟩
      exact ⟨part, hpart, after', h, rfl⟩

/-! ## From a point to the whole run -/

/-- From `fault` at the machine `after` to `fault'` at `after'`, on its way out: a statement
may have put its name to it, and the frames of calls may have been dropped. Nothing else has
changed. -/
structure Surfaces (fault : Fault) (after : Machine) (fault' : Fault) (after' : Machine) :
    Prop where
  cause : fault'.cause = fault.cause
  line : fault'.line = fault.line
  machine : after' = { after with frames := after'.frames }

theorem Surfaces.refl (fault : Fault) (after : Machine) : Surfaces fault after fault after :=
  ⟨rfl, rfl, rfl⟩

theorem Surfaces.trans {fault fault' fault'' : Fault} {after after' after'' : Machine}
    (h : Surfaces fault after fault' after') (h' : Surfaces fault' after' fault'' after'') :
    Surfaces fault after fault'' after'' := by
  refine ⟨h'.cause.trans h.cause, h'.line.trans h.line, ?_⟩
  rw [h'.machine, h.machine]

/-- One step on the way out: `Task.claim` and `Task.leave` are what a task makes of the fault
of a part. -/
theorem Task.surfaces (task : Task) (fault : Fault) (after : Machine) :
    Surfaces fault after (task.claim fault) (task.leave after) := by
  rcases task with tree | tree | ⟨function, arguments, line⟩ <;> exact ⟨rfl, rfl, rfl⟩

/-- A fault that is passed on the way through `point` is the fault of the point. By induction
on the parts, from each part to the point by `result_eq_error_iff`. -/
theorem Point.result_of_mem_history {point passed : Point} {fault : Fault} {after : Machine}
    (hpassed : passed ∈ point.history) (h : passed.result = .error fault after) :
    ∃ fault' after', point.result = .error fault' after' ∧ Surfaces fault after fault' after' := by
  induction point using Point.parts_induction with
  | h point ih =>
    rw [Point.history_eq] at hpassed
    rcases List.mem_cons.mp hpassed with rfl | hpassed
    · exact ⟨fault, after, h, .refl fault after⟩
    · obtain ⟨part, hpart, hmem⟩ := List.mem_flatMap.mp hpassed
      obtain ⟨fault', after', hresult, hsurfaces⟩ := ih part hpart hmem
      exact ⟨_, _, point.result_eq_error_iff.mpr (.inl ⟨part, hpart, _, _, hresult, rfl, rfl⟩),
        hsurfaces.trans (point.task.surfaces fault' after')⟩

/-- The fault of `point` is raised at some point on the way through it. This is the converse
of `result_of_mem_history`. -/
theorem Point.exists_raises {point : Point} {fault : Fault} {after : Machine}
    (h : point.result = .error fault after) :
    ∃ passed ∈ point.history, ∃ fault' after', passed.Raises fault' after' ∧
      Surfaces fault' after' fault after := by
  induction point using Point.parts_induction generalizing fault after with
  | h point ih =>
    rw [Point.history_eq]
    rcases point.result_eq_error_iff.mp h with ⟨part, hpart, fault', after', hresult, rfl, rfl⟩ | h
    · obtain ⟨passed, hpassed, fault'', after'', hraises, hsurfaces⟩ := ih part hpart hresult
      exact ⟨passed, List.mem_cons_of_mem _ (List.mem_flatMap.mpr ⟨part, hpart, hpassed⟩), _, _,
        hraises, hsurfaces.trans (point.task.surfaces fault' after')⟩
    · exact ⟨point, List.mem_cons_self, fault, after, h, .refl fault after⟩

/-- A run ends in the `fault` of its statements or, where these give a `value`, in the refusal
of the flush behind them. -/
theorem Program.run_eq_error_iff {program : Program} {machine after : Machine} {fault : Fault} :
    program.run machine = .error fault after ↔
      Program.execute .nil program machine = .error fault after ∨
        ∃ value reason, Program.execute .nil program machine = .ok value after ∧
          after.output.flushRefusal = some reason ∧
          fault = ⟨.transfer (.refused reason), 0, none⟩ := by
  rw [run_eq, bind_eq_error_iff]
  simp only [bind_eq_error_iff, flush_eq_error_iff, pure_ne_error, and_false, exists_false,
    or_false]
  refine or_congr Iff.rfl ⟨?_, ?_⟩
  · rintro ⟨value, between, hexecute, reason, hrefusal, rfl, rfl⟩
    exact ⟨value, reason, hexecute, hrefusal, rfl⟩
  · rintro ⟨value, reason, hexecute, hrefusal, rfl⟩
    exact ⟨value, after, hexecute, reason, hrefusal, rfl, rfl⟩

/-- A fault that the run of `program` passes is the fault of the run: nothing swallows it. -/
theorem Program.run_of_mem_history {program : Program} {machine after : Machine} {point : Point}
    {fault : Fault} (hpoint : point ∈ program.history machine)
    (h : point.result = .error fault after) :
    ∃ fault' after', program.run machine = .error fault' after' ∧
      Surfaces fault after fault' after' := by
  obtain ⟨start, hstart, hmem⟩ := List.mem_flatMap.mp hpoint
  obtain ⟨fault', after', hresult, hsurfaces⟩ := Point.result_of_mem_history hmem h
  have hexecute : Program.execute .nil program machine = .error fault' after' :=
    execute_eq_error_iff.mpr ⟨start, hstart, hresult⟩
  exact ⟨fault', after', Program.run_eq_error_iff.mpr (.inl hexecute), hsurfaces⟩

/-- The fault of a run `Surfaces` from one that some point of its `history` raises, or it is
the refusal of the flush. -/
theorem Program.exists_raises_of_run {program : Program} {machine after : Machine} {fault : Fault}
    (h : program.run machine = .error fault after) :
    (∃ point ∈ program.history machine, ∃ fault' after', point.Raises fault' after' ∧
      Surfaces fault' after' fault after) ∨
    ∃ reason, after.output.flushRefusal = some reason ∧
      fault = ⟨.transfer (.refused reason), 0, none⟩ := by
  rcases Program.run_eq_error_iff.mp h with hexecute | ⟨_, reason, -, hrefusal, rfl⟩
  · obtain ⟨start, hstart, hresult⟩ := execute_eq_error_iff.mp hexecute
    obtain ⟨point, hpoint, hraises⟩ := Point.exists_raises hresult
    exact .inl ⟨point, List.mem_flatMap.mpr ⟨start, hstart, hpoint⟩, hraises⟩
  · exact .inr ⟨reason, hrefusal, rfl⟩

/-! ## Calls without a frame -/

theorem BinaryOp.cause_of_apply {op : BinaryOp} {left right : Value} {cause : Fault.Cause}
    (h : op.apply left right = .error cause) :
    cause = .integerOverflow op ∨ cause = .divisionByZero ∨
      cause = .operandKinds op left.kind right.kind := by
  have hyields := op.yields_apply left right
  rw [h] at hyields
  cases hyields with
  | overflow _ _ => exact .inl rfl
  | divisionByZero _ _ _ => exact .inr (.inl rfl)
  | operandKinds _ _ => exact .inr (.inr rfl)

theorem cause_of_drawBelow {bound : Value} {line : Nat} {before after : Machine} {fault : Fault}
    (h : drawBelow bound line before = .error fault after) :
    fault.cause = .boundKind bound.kind ∨ ∃ n, fault.cause = .negativeBound n := by
  rcases bound with n | text | items | truth | _
  · unfold drawBelow at h
    dsimp only at h
    split at h
    · cases h
    · cases h
      exact .inr ⟨n, rfl⟩
  all_goals
    cases h
    exact .inl rfl

/-- Only a call for which no frame may be opened raises `depthExceeded`. It does so before
anything of the function has been executed. -/
theorem Point.Raises.call_of_depthExceeded {point : Point} {fault : Fault} {after : Machine}
    {limit : Nat} (h : point.Raises fault after) (hcause : fault.cause = .depthExceeded limit) :
    (∃ function arguments line, point.task = .call function arguments line) ∧
      point.machine.depthLimit ≤ point.machine.depth ∧ limit = point.machine.depthLimit ∧
      after = point.machine := by
  cases h with
  | depthExceeded h =>
    cases hcause
    exact ⟨⟨_, _, _, rfl⟩, h, rfl, rfl⟩
  | operator _ _ h =>
    rcases BinaryOp.cause_of_apply h with h | h | h <;> cases h.symm.trans hcause
  | random _ h =>
    rcases cause_of_drawBelow h with h | ⟨n, h⟩ <;> cases h.symm.trans hcause
  | undefinedVariable _ => cases hcause
  | undefinedFunction _ => cases hcause
  | arityMismatch _ _ => cases hcause
  | write _ _ => cases hcause
  | read _ => cases hcause

end Scriptlet
