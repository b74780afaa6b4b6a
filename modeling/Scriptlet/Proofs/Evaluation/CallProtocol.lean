import Scriptlet.Proofs.Evaluation.Origins
import Scriptlet.Proofs.Evaluation.Scopes

/-!
# The steps of a call

A call takes its steps in a fixed order: it finds the function, counts the arguments, evaluates them
from left to right, checks the depth limit, and runs the body of the function that it found in a
frame that binds the parameters. The first step that fails ends it. A definition that an argument
makes comes too late for the call itself.

* `EvaluatesInTurn` and `FailsInTurn` say how expressions end that are evaluated one after the
  other.
* `Environment.BindsInOrder` says what the frame of a call binds.
* `CallEnds` lists the ways in which a call ends, step by step.
* `call_takes_steps_in_order` is the result.
-/

namespace Scriptlet

open Evaluation

/-! ## Arguments -/

/-- The expressions have these values, and leave this machine, when they are evaluated one
after the other, each on the machine that the one before it leaves. -/
inductive EvaluatesInTurn : List Expression → Machine → List Value → Machine → Prop where
  | none {machine : Machine} : EvaluatesInTurn [] machine [] machine
  | next {tree : Expression} {trees : List Expression} {machine between after : Machine}
      {value : Value} {values : List Value} (hvalue : tree.evaluate machine = .ok value between)
      (hvalues : EvaluatesInTurn trees between values after) :
      EvaluatesInTurn (tree :: trees) machine (value :: values) after

/-- The expressions end in `fault`, and leave the machine `after`: one of them fails where
those before it have values, and those behind it are not evaluated. -/
def FailsInTurn (trees : List Expression) (machine : Machine) (fault : Fault) (after : Machine) :
    Prop :=
  ∃ before tree later values between, trees = before ++ tree :: later ∧
    EvaluatesInTurn before machine values between ∧ tree.evaluate between = .error fault after

section

variable {α β : Type} {tree : Expression} {trees : List Expression} {machine after : Machine}
  {values : List Value} {fault : Fault}

theorem Evaluation.bind_eq_ok_iff {first : Evaluation α} {second : α → Evaluation β} {value : β} :
    (first >>= second) machine = .ok value after ↔
      ∃ between middle, first machine = .ok middle between ∧
        second middle between = .ok value after := by
  rcases h : first machine with ⟨middle, between⟩ | ⟨fault, between⟩
  · rw [bind_of_ok h]
    grind
  · rw [bind_of_error h]
    grind

theorem failsInTurn_cons :
    FailsInTurn (tree :: trees) machine fault after ↔
      tree.evaluate machine = .error fault after ∨
        ∃ value between, tree.evaluate machine = .ok value between ∧
          FailsInTurn trees between fault after := by
  constructor
  · rintro ⟨before, failing, later, values, between, htrees, hbefore, hfails⟩
    cases hbefore with
    | none =>
      obtain ⟨rfl, rfl⟩ := List.cons.inj htrees
      exact .inl hfails
    | next hvalue hvalues =>
      obtain ⟨rfl, rfl⟩ := List.cons.inj htrees
      exact .inr ⟨_, _, hvalue, _, _, _, _, _, rfl, hvalues, hfails⟩
  · rintro (hfails | ⟨value, between, hvalue, before, failing, later, values, last, rfl, hbefore,
      hfails⟩)
    · exact ⟨[], tree, trees, [], machine, rfl, .none, hfails⟩
    · exact ⟨tree :: before, failing, later, value :: values, last, rfl, .next hvalue hbefore,
        hfails⟩

/-- The values of `evaluateAll` are those that the expressions have in turn. -/
theorem evaluateAll_eq_ok_iff :
    Expression.evaluateAll trees machine = .ok values after ↔
      EvaluatesInTurn trees machine values after := by
  -- Both sides go through the expressions in order, so the induction is on the list of them.
  induction trees generalizing machine values with
  | nil =>
    rw [evaluateAll_nil]
    constructor
    · rintro ⟨⟩
      exact .none
    · rintro ⟨⟩
      rfl
  | cons tree trees ih =>
    rw [evaluateAll_cons, bind_eq_ok_iff]
    constructor
    · rintro ⟨between, value, hvalue, h⟩
      obtain ⟨_, rest, hrest, ⟨⟩⟩ := bind_eq_ok_iff.mp h
      exact .next hvalue (ih.mp hrest)
    · rintro (_ | ⟨hvalue, hvalues⟩)
      exact ⟨_, _, hvalue, bind_eq_ok_iff.mpr ⟨_, _, ih.mpr hvalues, rfl⟩⟩

/-- The fault of `evaluateAll` is that of the expression that fails in turn. -/
theorem evaluateAll_eq_error_iff_failsInTurn :
    Expression.evaluateAll trees machine = .error fault after ↔
      FailsInTurn trees machine fault after := by
  induction trees generalizing machine with
  | nil =>
    simp only [evaluateAll_nil, pure_ne_error, false_iff]
    rintro ⟨before, tree, later, values, between, htrees, -⟩
    cases before <;> cases htrees
  | cons tree trees ih =>
    rw [evaluateAll_cons, failsInTurn_cons, bind_eq_error_iff]
    simp only [bind_eq_error_iff, pure_ne_error, and_false, exists_false, or_false, ih]

/-- Expressions that have values in turn have one value each, and by `SameScopes` and
`SameExtent` every scope and the extent of the machine are kept: each of them is evaluated in
the scope of the first. -/
theorem EvaluatesInTurn.keeps (h : EvaluatesInTurn trees machine values after) :
    values.length = trees.length ∧ SameScopes machine after ∧ SameExtent machine after := by
  induction h with
  | none => exact ⟨rfl, refl_of SameScopes _, refl_of SameExtent _⟩
  | @next tree trees machine between after value values hvalue _ ih =>
    have hscopes := effectBound_sameScopes.moves_evaluate tree machine
    have hextent := effectBound_sameExtent.moves_evaluate tree machine
    rw [after_of_ok hvalue] at hscopes hextent
    obtain ⟨hlength, hscopes', hextent'⟩ := ih
    exact ⟨congrArg (· + 1) hlength, trans_of SameScopes hscopes hscopes',
      trans_of SameExtent hextent hextent'⟩

end

/-! ## Frames -/

namespace Environment

/-- The environment `env` binds each of `parameters` to the value in its place, and nothing
else. Of parameters with one name the last one counts. -/
structure BindsInOrder (env : Environment) (parameters : List String) (values : List Value) :
    Prop where
  bound : ∀ i name, parameters[i]? = some name → name ∉ parameters.drop (i + 1) →
    env.find? name = values[i]?
  unbound : ∀ name, name ∉ parameters → env.find? name = none

section

variable {parameters : List String} {values : List Value} {name : String} (env : Environment)

theorem find?_foldl_define_of_notMem (h : name ∉ parameters) :
    ((parameters.zip values).foldl (fun env binding => env.define binding.1 binding.2) env).find?
      name = env.find? name := by
  induction parameters generalizing env values with
  | nil => rfl
  | cons parameter parameters ih =>
    rcases values with _ | ⟨value, values⟩
    · rfl
    · obtain ⟨hne, hrest⟩ := List.ne_and_not_mem_of_not_mem_cons h
      rw [List.zip_cons_cons, List.foldl_cons, ih _ hrest, find?_define, if_neg hne]

theorem find?_foldl_define_of_last (hlength : values.length = parameters.length) {i : Nat}
    (hname : parameters[i]? = some name) (hlast : name ∉ parameters.drop (i + 1)) :
    ((parameters.zip values).foldl (fun env binding => env.define binding.1 binding.2) env).find?
      name = values[i]? := by
  -- The scope grows from left to right, so it is generalized; the last binding of a name
  -- counts.
  induction parameters generalizing env values i with
  | nil => cases hname
  | cons parameter parameters ih =>
    obtain ⟨value, values, rfl⟩ := List.exists_cons_of_length_eq_add_one hlength
    rw [List.zip_cons_cons, List.foldl_cons]
    cases i with
    | zero =>
      obtain rfl := Option.some.inj hname
      have hrest : parameter ∉ parameters := hlast
      rw [find?_foldl_define_of_notMem _ hrest, find?_define, if_pos rfl]
      rfl
    | succ i => exact ih _ (Nat.succ.inj hlength) hname hlast

end

/-- The bindings `Environment.ofParameters` are those that binding each parameter in order
would give. -/
theorem bindsInOrder_ofParameters {parameters : List String} {values : List Value}
    (h : values.length = parameters.length) :
    (ofParameters parameters values).BindsInOrder parameters values where
  bound _ _ hname hlast := find?_foldl_define_of_last empty h hname hlast
  unbound _ hname := find?_foldl_define_of_notMem empty hname

end Environment

/-! ## Calls -/

/-- How a call of `name` ends. Each step is taken where the steps before it have succeeded;
the function is the one that the name has in front of all steps. -/
inductive CallEnds (name : String) (arguments : List Expression) (line : Nat) (machine : Machine) :
    EStateM.Result Fault Machine Value → Prop where
  /-- There is no function of the name. -/
  | undefined (hfound : machine.functions.find? name = none) :
      CallEnds name arguments line machine (.error ⟨.undefinedFunction name, line, none⟩ machine)
  /-- There are not as many arguments as parameters. -/
  | miscounted {function : Function} (hfound : machine.functions.find? name = some function)
      (hlength : arguments.length ≠ function.parameters.length) :
      CallEnds name arguments line machine
        (.error ⟨.arityMismatch name function.parameters.length arguments.length, line, none⟩
          machine)
  /-- An argument fails. -/
  | argument {function : Function} {fault : Fault} {after : Machine}
      (hfound : machine.functions.find? name = some function)
      (hlength : arguments.length = function.parameters.length)
      (hfails : FailsInTurn arguments machine fault after) :
      CallEnds name arguments line machine (.error fault after)
  /-- No frame may be opened. -/
  | tooDeep {function : Function} {values : List Value} {between : Machine}
      (hfound : machine.functions.find? name = some function)
      (hlength : arguments.length = function.parameters.length)
      (hvalues : EvaluatesInTurn arguments machine values between)
      (hdepth : between.depthLimit ≤ between.depth) :
      CallEnds name arguments line machine
        (.error ⟨.depthExceeded between.depthLimit, line, none⟩ between)
  /-- The call is logged, and the body runs in its frame. -/
  | body {function : Function} {values : List Value} {between : Machine}
      (hfound : machine.functions.find? name = some function)
      (hlength : arguments.length = function.parameters.length)
      (hvalues : EvaluatesInTurn arguments machine values between)
      (hdepth : between.depth < between.depthLimit) :
      CallEnds name arguments line machine
        (Evaluation.inFrame (.ofParameters function.parameters values)
          (Program.execute .nil function.body)
          (between.record (.calling name (between.depth + 1))))

section

variable {name : String} {arguments : List Expression} {line : Nat} {machine : Machine}

/-- A call ends in one of the ways of `CallEnds`. -/
theorem callEnds_evaluate :
    CallEnds name arguments line machine
      ((Expression.call name arguments line).evaluate machine) := by
  -- Each split is the step that comes next, on the machine that the steps before it have left.
  rcases hfound : machine.functions.find? name with _ | function
  · rw [evaluate_call_of_find?_eq_none hfound]
    exact .undefined hfound
  by_cases hlength : arguments.length = function.arity
  · rw [evaluate_call_of_length_eq hfound hlength]
    rcases hvalues : Expression.evaluateAll arguments machine with
      ⟨values, between⟩ | ⟨fault, after⟩
    · rw [bind_of_ok hvalues]
      rcases Nat.lt_or_ge between.depth between.depthLimit with hdepth | hdepth
      · rw [attempt_of_lt_limit hdepth, FunctionTable.name_of_find? hfound]
        exact .body hfound hlength (evaluateAll_eq_ok_iff.mp hvalues) hdepth
      · rw [attempt_of_limit_le hdepth]
        exact .tooDeep hfound hlength (evaluateAll_eq_ok_iff.mp hvalues) hdepth
    · rw [bind_of_error hvalues]
      exact .argument hfound hlength (evaluateAll_eq_error_iff_failsInTurn.mp hvalues)
  · rw [evaluate_call_of_length_ne hfound hlength]
    exact .miscounted hfound hlength

/-- Each of the ways of `CallEnds` is the one in which the call ends. -/
theorem CallEnds.evaluate_eq {result : EStateM.Result Fault Machine Value}
    (h : CallEnds name arguments line machine result) :
    (Expression.call name arguments line).evaluate machine = result := by
  cases h with
  | undefined hfound => exact evaluate_call_of_find?_eq_none hfound arguments line
  | miscounted hfound hlength => exact evaluate_call_of_length_ne hfound hlength line
  | argument hfound hlength hfails =>
    rw [evaluate_call_of_length_eq hfound hlength,
      bind_of_error (evaluateAll_eq_error_iff_failsInTurn.mpr hfails)]
  -- Behind the arguments there are as many frames as in front of them, but the machine is
  -- another one.
  | tooDeep hfound hlength hvalues hdepth =>
    rw [evaluate_call_of_length_eq hfound hlength, bind_of_ok (evaluateAll_eq_ok_iff.mpr hvalues),
      attempt_of_limit_le hdepth]
  | body hfound hlength hvalues hdepth =>
    rw [evaluate_call_of_length_eq hfound hlength, bind_of_ok (evaluateAll_eq_ok_iff.mpr hvalues),
      attempt_of_lt_limit hdepth, FunctionTable.name_of_find? hfound]

end

/-- **A call takes its steps in a fixed order, and its function is found before its arguments
are evaluated.** It ends exactly as `CallEnds` says. An unknown name and a wrong number of
arguments leave `machine` as it is. Every argument is evaluated in the scopes of the caller,
as `SameScopes` holds for each list `before` of arguments that have values, and the first one
that fails ends the call. With all values the depth limit is checked, and then the body of the
function that was found runs in a frame that binds the parameters to the values, and nothing
else, on the machine that the arguments leave; what they do to the function table changes
neither the body nor the parameters. -/
theorem call_takes_steps_in_order (name : String) (arguments : List Expression) (line : Nat)
    (machine : Machine) :
    (∀ result, (Expression.call name arguments line).evaluate machine = result ↔
      CallEnds name arguments line machine result) ∧
      (∀ before values between, before <+: arguments →
        EvaluatesInTurn before machine values between →
          values.length = before.length ∧ SameScopes machine between ∧
            SameExtent machine between) ∧
        ∀ (function : Function) values between, arguments.length = function.parameters.length →
          EvaluatesInTurn arguments machine values between →
            (Environment.ofParameters function.parameters values).BindsInOrder function.parameters
              values := by
  refine ⟨fun result => ⟨?_, CallEnds.evaluate_eq⟩, ?_, ?_⟩
  · rintro rfl
    exact callEnds_evaluate
  · intro before values between _ h
    exact h.keeps
  · intro function values between hlength h
    exact Environment.bindsInOrder_ofParameters (h.keeps.1.trans hlength)

/-- A machine on which a call of `g` defines `f` anew, with another body and two parameters. -/
def Machine.redefining : Machine :=
  let first : Function := ⟨"f", ["x"], [.evaluate (.identifier "x" 1) 1]⟩
  let redefining : Function :=
    ⟨"g", [], [.define "f" ["x", "y"] [.evaluate (.literal 0) 2] 2, .evaluate (.literal 7) 2]⟩
  { Machine.fresh .unlimited [] (.scripted []) 1 with
    functions := (FunctionTable.empty.define first).define redefining }

/-- On `Machine.redefining` the call of `f` runs the body that `f` had before its argument was
evaluated. -/
theorem redefining_call_runs_first_body :
    ∃ between, EvaluatesInTurn [.call "g" [] 3] .redefining [.integer 7] between ∧
      (between.functions.find? "f").map Function.parameters = some ["x", "y"] ∧
      (Environment.ofParameters ["x"] [.integer 7]).BindsInOrder ["x"] [.integer 7] ∧
      (Expression.call "f" [.call "g" [] 3] 3).evaluate .redefining =
        Evaluation.inFrame (.ofParameters ["x"] [.integer 7])
          (Program.execute .nil [.evaluate (.identifier "x" 1) 1])
          (between.record (.calling "f" 1)) := by
  obtain ⟨hends, -, hframe⟩ := call_takes_steps_in_order "f" [.call "g" [] 3] 3 .redefining
  -- The argument puts a function with two parameters in the place of `f`.
  obtain ⟨between, hvalue, hparameters, hdepth, hlimit⟩ : ∃ between,
      (Expression.call "g" [] 3).evaluate .redefining = .ok (.integer 7) between ∧
        (between.functions.find? "f").map Function.parameters = some ["x", "y"] ∧
          between.depth = 0 ∧ 0 < between.depthLimit :=
    ⟨_, rfl, rfl, rfl, by decide⟩
  have hargument : EvaluatesInTurn [.call "g" [] 3] .redefining [.integer 7] between :=
    .next hvalue .none
  refine ⟨between, hargument, hparameters, ?_, ?_⟩
  · exact hframe ⟨"f", ["x"], [.evaluate (.identifier "x" 1) 1]⟩ _ _ rfl hargument
  -- The call still ends as the function that was found first says.
  · have hbody : CallEnds "f" [.call "g" [] 3] 3 .redefining _ :=
      .body rfl rfl hargument (hdepth ▸ hlimit)
    rw [hdepth] at hbody
    exact (hends _).mpr hbody

end Scriptlet
