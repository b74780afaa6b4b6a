import Scriptlet.Proofs.Evaluation.Scopes
import Scriptlet.Proofs.Lines

/-!
# Two evaluations side by side

Two evaluations of one program are compared step by step. They run on machines that need not be the
same, and the second one may run code whose lines are others. The induction over expressions,
statements, bodies and nested calls is made here once, for any relation between the two machines
that every single step keeps.

* `Pairing` says what is known of the two machines: while both evaluations go on, and when the first
  one has ended in a fault of its own and the second one goes on alone.
* `Pairing.Tracks P first second` says that two evaluations keep to a pairing.
* `Likeness` lists what a program can see of its scopes and functions, and that its steps keep it.
* `Simulation P extra` says that all single steps keep to a pairing, the second evaluation having
  `extra` frames more to open than the first.
* `Simulation.tracks_executeProgramWith` and `Simulation.tracks_enterWith` conclude this for whole
  evaluations.
* `Lockstep` is the case in which the two evaluations never part: the machines have the same
  devices, scopes and limits, and functions that differ in their lines.
-/

namespace Scriptlet

open Evaluation

variable {α β : Type}

/-- What is known of two evaluations that run side by side. -/
structure Pairing where
  /-- The two machines while both evaluations go on, and when both end in the same way. -/
  together : Machine → Machine → Prop
  /-- The maps that take the lines of the first evaluation's code to those of the second. -/
  relabels : (Nat → Nat) → Prop
  /-- The two machines when the first evaluation has ended in a fault and the second has gone on. -/
  parted : Fault → Machine → Machine → Prop
  /-- What the second evaluation may do when it goes on alone. -/
  onward : Machine → Machine → Prop

namespace Pairing

/-- Two results agree: equal values, or faults that differ in their line only, and machines
that are still `together`; or the first result is a fault at which the evaluations have
`parted`. -/
def Agree (P : Pairing) :
    EStateM.Result Fault Machine α → EStateM.Result Fault Machine α → Prop
  | .ok value after, .ok value' after' => value' = value ∧ P.together after after'
  | .error fault after, .error fault' after' =>
    ((∃ f, P.relabels f ∧ fault' = fault.mapLine f) ∧ P.together after after') ∨
      P.parted fault after after'
  | .error fault after, .ok _ after' => P.parted fault after after'
  | .ok _ _, .error _ _ => False

/-- Two evaluations keep to `P`: their results agree where they start together, and the second
one moves onward wherever it starts. -/
structure Tracks (P : Pairing) (first second : Evaluation α) : Prop where
  agree : ∀ before before', P.together before before' → P.Agree (first before) (second before')
  onward : Moves P.onward second

/-- Two meanings of calls keep to `P`. -/
structure TracksCalls (P : Pairing) (invoke invoke' : Invocation) : Prop where
  tracks : ∀ {f g : Nat → Nat}, P.relabels f → P.relabels g → ∀ function arguments line,
    P.Tracks (invoke function arguments line) (invoke' (function.mapLines f) arguments (g line))
  moves : ∀ function arguments line, Moves P.onward (invoke' function arguments line)

/-- Evaluations that are `parted` stay so, whatever the second one does and wherever the first
one's fault is passed on to. -/
structure Parting (P : Pairing) : Prop where
  effect : EffectBound P.onward P.onward
  onward : ∀ {fault after between after'}, P.parted fault after between →
    P.onward between after' → P.parted fault after after'
  within : ∀ {fault after after'} (statement : Statement), P.parted fault after after' →
    P.parted (fault.within statement) after after'
  pop : ∀ {fault after after'}, P.parted fault after after' →
    P.parted fault after.pop after'.pop

namespace Tracks

variable {P : Pairing}

/-- The two sides go on with what they see of their machines. The machines need not be equal,
so this is not a case of `bind`. -/
theorem get_bind {first second : Machine → Evaluation α} (hmoves : Moves P.onward (get >>= second))
    (h : ∀ machine machine', P.together machine machine' →
      P.Tracks (first machine) (second machine')) :
    P.Tracks (get >>= first) (get >>= second) :=
  ⟨fun machine machine' htogether => (h machine machine' htogether).agree _ _ htogether, hmoves⟩

/-- Where the first evaluation has ended in a `fault`, every result that `second` reaches
alone agrees with it. -/
theorem agree_of_parted (parting : P.Parting) {fault : Fault} {after before' : Machine}
    {second : Evaluation α} (h : P.parted fault after before') (hmoves : Moves P.onward second) :
    P.Agree (.error fault after) (second before') := by
  have honward := hmoves before'
  rcases hresult : second before' with ⟨value, after'⟩ | ⟨fault', after'⟩
  · rw [after_of_ok hresult] at honward
    exact parting.onward h honward
  · rw [after_of_error hresult] at honward
    exact .inr (parting.onward h honward)

theorem within (parting : P.Parting) {first second : Evaluation α} (h : P.Tracks first second)
    (statement : Statement) (f : Nat → Nat) :
    P.Tracks (Evaluation.within statement first)
      (Evaluation.within (statement.mapLines f) second) := by
  refine ⟨fun before before' htogether => ?_, h.onward.within _⟩
  have hagree := h.agree before before' htogether
  unfold Evaluation.within
  rcases hleft : first before with ⟨value, after⟩ | ⟨fault, after⟩ <;>
    rcases hright : second before' with ⟨value', after'⟩ | ⟨fault', after'⟩ <;>
    rw [hleft, hright] at hagree
  · exact hagree
  · exact hagree.elim
  · exact parting.within statement hagree
  -- Equal faults are named by the same statement, and parted ones stay so.
  · rcases hagree with ⟨⟨g, hg, rfl⟩, htogether⟩ | hparted
    · exact .inl ⟨⟨g, hg, Fault.within_mapLine g f fault statement⟩, htogether⟩
    · exact .inr (parting.within statement hparted)

variable [IsPreorder Machine P.onward]

theorem pure (value : α) : P.Tracks (Pure.pure value) (Pure.pure value : Evaluation α) :=
  ⟨fun _ _ h => ⟨rfl, h⟩, Moves.pure value⟩

theorem fail {f : Nat → Nat} (hf : P.relabels f) (cause : Fault.Cause) (line : Nat) :
    P.Tracks (Evaluation.fail cause line) (Evaluation.fail cause (f line) : Evaluation α) :=
  ⟨fun _ _ h => .inl ⟨⟨f, hf, rfl⟩, h⟩, Moves.fail cause (f line)⟩

theorem ofCause {f : Nat → Nat} (hf : P.relabels f) (line : Nat) (result : Except Fault.Cause α) :
    P.Tracks (Evaluation.ofCause line result) (Evaluation.ofCause (f line) result) := by
  rcases result with cause | value
  · exact fail hf cause line
  · exact pure value

/-- Longer evaluations keep to `P` as their parts do. When `first` has ended in a fault and
`first'` in a value, the second part runs on one side only: the evaluations have parted. -/
theorem bind (parting : P.Parting) {first first' : Evaluation α}
    {second second' : α → Evaluation β} (hfirst : P.Tracks first first')
    (hsecond : ∀ value, P.Tracks (second value) (second' value)) :
    P.Tracks (first >>= second) (first' >>= second') := by
  refine ⟨fun before before' h => ?_, hfirst.onward.bind fun value => (hsecond value).onward⟩
  have hagree := hfirst.agree before before' h
  rcases hleft : first before with ⟨value, between⟩ | ⟨fault, between⟩ <;>
    rcases hright : first' before' with ⟨value', between'⟩ | ⟨fault', between'⟩ <;>
    rw [hleft, hright] at hagree
  · obtain ⟨rfl, htogether⟩ := hagree
    rw [bind_of_ok hleft, bind_of_ok hright]
    exact (hsecond _).agree _ _ htogether
  -- A value on the left and a fault on the right do not agree.
  · exact hagree.elim
  · -- The first evaluation has ended here, and the second one goes on alone.
    rw [bind_of_error hleft, bind_of_ok hright]
    exact agree_of_parted parting hagree (hsecond value').onward
  · rw [bind_of_error hleft, bind_of_error hright]
    exact hagree

end Tracks

end Pairing

open Pairing

/-- Machines that are `together` look alike to a program, up to the lines of its functions,
and every step that only scopes and functions know of leaves them so. -/
structure Likeness (together : Machine → Machine → Prop) (relabels : (Nat → Nat) → Prop) :
    Prop where
  functions : ∀ {machine machine'}, together machine machine' → ∀ name,
    Option.Rel (fun function function' => ∃ f, relabels f ∧ function' = function.mapLines f)
      (machine.functions.find? name) (machine'.functions.find? name)
  current : ∀ {machine machine'}, together machine machine' → machine'.current = machine.current
  depth : ∀ {machine machine'}, together machine machine' → machine'.depth = machine.depth
  record : ∀ {machine machine'} {f : Nat → Nat}, relabels f → together machine machine' →
    ∀ event, together (machine.record event) (machine'.record (event.mapLine f))
  bind : ∀ {machine machine'}, together machine machine' → ∀ name value,
    together (machine.bind name value) (machine'.bind name value)
  define : ∀ {machine machine'} {f : Nat → Nat}, relabels f → together machine machine' →
    ∀ function, together { machine with functions := machine.functions.define function }
      { machine' with functions := machine'.functions.define (function.mapLines f) }
  push : ∀ {machine machine'}, together machine machine' → ∀ frame,
    together (machine.push frame) (machine'.push frame)
  /-- Machines that are `together` after a call stay so when its frames are dropped, since the
  scopes in front of it are as they were. -/
  leave : ∀ {before before' after after'}, together before before' → together after after' →
    SameScopes before after.pop → SameScopes before' after'.pop → together after.pop after'.pop

theorem rel_map_mapLines (f : Nat → Nat) (found : Option Function) :
    Option.Rel (fun function function' => ∃ g, g = f ∧ function' = function.mapLines g) found
      (found.map (Function.mapLines f)) := by
  rcases found with _ | function
  · exact .none
  · exact .some ⟨f, rfl, rfl⟩

theorem rel_self (found : Option Function) :
    Option.Rel (fun function function' => ∃ g, g = id ∧ function' = function.mapLines g) found
      found := by
  rcases found with _ | function
  · exact .none
  · exact .some ⟨id, rfl, function.mapLines_id.symm⟩

/-- Every single step keeps to `P`. The second evaluation may open `extra` frames more than
the first. -/
structure Simulation (P : Pairing) (extra : Nat) : Prop
    extends P.Parting, Likeness P.together P.relabels where
  write : ∀ {f : Nat → Nat}, P.relabels f → ∀ value line,
    P.Tracks (writeValue value line) (writeValue value (f line))
  read : ∀ {f : Nat → Nat}, P.relabels f → ∀ line, P.Tracks (readLine line) (readLine (f line))
  draw : ∀ {f : Nat → Nat}, P.relabels f → ∀ bound line,
    P.Tracks (drawBelow bound line) (drawBelow bound (f line))
  /-- With no frame left for the first evaluation, the second one has `extra` frames for the
  call. -/
  exhausted : ∀ {f g : Nat → Nat}, P.relabels f → P.relabels g → ∀ function arguments line,
    P.Tracks (Function.invoke 0 function arguments line)
      (Function.invoke extra (function.mapLines f) arguments (g line))

namespace Simulation

variable {P : Pairing} {extra : Nat} (simulation : Simulation P extra)
include simulation

theorem tracks_record {f : Nat → Nat} (hf : P.relabels f) (event : Event) :
    P.Tracks (Evaluation.record event) (Evaluation.record (event.mapLine f)) :=
  ⟨fun _ _ h => ⟨rfl, simulation.record hf h event⟩, simulation.effect.moves_record _⟩

theorem tracks_bindName (name : String) (value : Value) :
    P.Tracks (bindName name value) (bindName name value) :=
  ⟨fun _ _ h => ⟨rfl, simulation.bind h name value⟩, simulation.effect.moves_bindName _ _⟩

/-- A frame is opened and dropped on both sides. Between these the outer scopes are kept, as
`Likeness.leave` asks. -/
theorem tracks_inFrame {first second : Evaluation α} (h : P.Tracks first second)
    (hfirst : Moves SameOuterScopes first) (hsecond : Moves SameOuterScopes second)
    (frame : Environment) :
    P.Tracks (Evaluation.inFrame frame first) (Evaluation.inFrame frame second) := by
  refine ⟨fun before before' htogether => ?_, fun before => ?_⟩
  · have hagree := h.agree _ _ (simulation.push htogether frame)
    -- Whatever happens in the frames, the scopes outside them are as they were.
    have hscopes := (hfirst (before.push frame)).pop
    have hscopes' := (hsecond (before'.push frame)).pop
    unfold Evaluation.inFrame
    rcases hleft : first (before.push frame) with ⟨value, after⟩ | ⟨fault, after⟩ <;>
      rcases hright : second (before'.push frame) with ⟨value', after'⟩ | ⟨fault', after'⟩ <;>
      rw [hleft, hright] at hagree
    · rw [after_of_ok hleft] at hscopes
      rw [after_of_ok hright] at hscopes'
      exact ⟨hagree.1, simulation.leave htogether hagree.2 hscopes hscopes'⟩
    · exact hagree.elim
    · exact simulation.pop hagree
    · rw [after_of_error hleft] at hscopes
      rw [after_of_error hright] at hscopes'
      rcases hagree with ⟨hfault, hafter⟩ | hparted
      · exact .inl ⟨hfault, simulation.leave htogether hafter hscopes hscopes'⟩
      · exact .inr (simulation.pop hparted)
  · rw [after_inFrame]
    exact simulation.effect.frame _ _ _ (h.onward _)

variable [IsPreorder Machine P.onward]

theorem tracks_defineFunction {f : Nat → Nat} (hf : P.relabels f) (function : Function) :
    P.Tracks (defineFunction function) (defineFunction (function.mapLines f)) := by
  refine ⟨fun machine machine' h => ?_, simulation.effect.moves_defineFunction _⟩
  have hstored := simulation.define hf
    (simulation.record hf h (.defining function.name function.arity)) function
  -- What decides about the event of a redefinition is whether the name is known, on both sides
  -- alike.
  have hfound := simulation.functions h function.name
  rcases hold : machine.functions.find? function.name with _ | old <;>
    rcases hold' : machine'.functions.find? function.name with _ | old' <;>
    rw [hold, hold'] at hfound
  · rw [defineFunction_of_find?_eq_none hold, defineFunction_of_find?_eq_none (by exact hold')]
    exact ⟨rfl, hstored⟩
  · cases hfound
  · cases hfound
  · rw [defineFunction_of_find?_eq_some hold, defineFunction_of_find?_eq_some (by exact hold')]
    exact ⟨rfl, simulation.record hf hstored (.redefined function.name)⟩

mutual

/-- Expressions keep to `P` if their calls do. By the recursion of `evaluateWith`. -/
theorem tracks_evaluateWith {invoke invoke' : Invocation}
    (hcalls : P.TracksCalls invoke invoke') {f : Nat → Nat} (hf : P.relabels f) : ∀ e : Expression,
    P.Tracks (e.evaluateWith invoke) ((e.mapLines f).evaluateWith invoke')
  | .literal n => by
    rw [Expression.mapLines, Expression.evaluateWith, Expression.evaluateWith]
    exact .pure _
  | .string text => by
    have honward := Moves.evaluateWith hcalls.moves ((Expression.string text).mapLines f)
    rw [Expression.mapLines, Expression.evaluateWith] at honward ⊢
    rw [Expression.evaluateWith]
    refine .get_bind honward fun machine machine' h => ?_
    rw [simulation.current h]
    exact .pure _
  | .identifier name line => by
    have honward := Moves.evaluateWith hcalls.moves ((Expression.identifier name line).mapLines f)
    rw [Expression.mapLines, Expression.evaluateWith] at honward ⊢
    rw [Expression.evaluateWith]
    refine .get_bind honward fun machine machine' h => ?_
    rw [simulation.current h]
    rcases machine.current.find? name with _ | found
    · exact .fail hf _ _
    · exact .pure _
  | .binary op left right line => by
    rw [Expression.mapLines, Expression.evaluateWith, Expression.evaluateWith]
    refine .bind simulation.toParting (tracks_evaluateWith hcalls hf left) fun leftValue => ?_
    refine .bind simulation.toParting (tracks_evaluateWith hcalls hf right) fun rightValue => ?_
    exact .ofCause hf _ _
  | .list items => by
    rw [Expression.mapLines, Expression.evaluateWith, Expression.evaluateWith]
    exact .bind simulation.toParting (tracks_evaluateAllWith hcalls hf items) fun values => .pure _
  | .call name arguments line => by
    have honward :=
      Moves.evaluateWith hcalls.moves ((Expression.call name arguments line).mapLines f)
    rw [Expression.mapLines, Expression.evaluateWith] at honward ⊢
    rw [Expression.evaluateWith]
    refine .get_bind honward fun machine machine' h => ?_
    have hfound := simulation.functions h name
    rcases hold : machine.functions.find? name with _ | function <;>
      rcases hold' : machine'.functions.find? name with _ | function' <;> rw [hold, hold'] at hfound
    · exact .fail hf _ _
    · cases hfound
    · cases hfound
    · obtain ⟨⟨g, hg, rfl⟩⟩ := hfound
      -- The two functions have the same arity, so both calls pass the check or none does.
      show P.Tracks (ite _ _ _) (ite _ _ _)
      rw [Function.arity_mapLines, Expression.length_mapLinesAll]
      split
      · exact .fail hf _ _
      · refine .bind simulation.toParting (tracks_evaluateAllWith hcalls hf arguments)
          fun values => ?_
        exact hcalls.tracks hg hf _ _ _

theorem tracks_evaluateAllWith {invoke invoke' : Invocation}
    (hcalls : P.TracksCalls invoke invoke') {f : Nat → Nat} (hf : P.relabels f) :
    ∀ es : List Expression,
    P.Tracks (Expression.evaluateAllWith invoke es)
      (Expression.evaluateAllWith invoke' (Expression.mapLinesAll f es))
  | [] => by
    rw [Expression.mapLinesAll, Expression.evaluateAllWith, Expression.evaluateAllWith]
    exact .pure _
  | e :: es => by
    rw [Expression.mapLinesAll, Expression.evaluateAllWith, Expression.evaluateAllWith]
    refine .bind simulation.toParting (tracks_evaluateWith hcalls hf e) fun head => ?_
    exact .bind simulation.toParting (tracks_evaluateAllWith hcalls hf es) fun tail => .pure _

end

/-- Statements keep to `P` if their calls do, with one step of `Simulation` for each kind of
statement. -/
theorem tracks_executeWith {invoke invoke' : Invocation}
    (hcalls : P.TracksCalls invoke invoke') {f : Nat → Nat} (hf : P.relabels f)
    (statement : Statement) :
    P.Tracks (statement.executeWith invoke) ((statement.mapLines f).executeWith invoke') := by
  have hparting := simulation.toParting
  have hexpression := simulation.tracks_evaluateWith hcalls hf
  have honward := simulation.effect.moves_executeWith hcalls.moves (statement.mapLines f)
  unfold Statement.executeWith at honward ⊢
  refine .get_bind honward fun machine machine' h => ?_
  -- The log has the mapped line, and the same depth and description.
  rw [Statement.description_mapLines, Statement.line_mapLines, simulation.depth h]
  refine .bind hparting (simulation.tracks_record hf (.executing ..)) fun _ => ?_
  refine .within hparting ?_ statement f
  rcases statement with ⟨name, e, line⟩ | ⟨e, line⟩ | ⟨name, line⟩ | ⟨name, e, line⟩ |
    ⟨name, parameters, body, line⟩ | ⟨e, line⟩
  · exact .bind hparting (hexpression e) fun value => simulation.tracks_bindName _ _
  · refine .bind hparting (hexpression e) fun value => ?_
    exact .bind hparting (simulation.write hf value line) fun _ => .pure _
  · exact .bind hparting (simulation.read hf line) fun text => simulation.tracks_bindName _ _
  · refine .bind hparting (hexpression e) fun bound => ?_
    exact .bind hparting (simulation.draw hf bound line) fun _ => simulation.tracks_bindName _ _
  · exact .bind hparting (simulation.tracks_defineFunction hf ⟨name, parameters, body⟩)
      fun _ => .pure _
  · exact hexpression e

theorem tracks_executeProgramWith {invoke invoke' : Invocation}
    (hcalls : P.TracksCalls invoke invoke') {f : Nat → Nat} (hf : P.relabels f) (program : Program)
    (last : Value) :
    P.Tracks (Program.executeWith invoke last program)
      (Program.executeWith invoke' last (program.mapLines f)) := by
  induction program generalizing last with
  | nil => exact .pure last
  | cons statement rest ih =>
    rw [Program.mapLines, Program.executeWith, Program.executeWith]
    exact .bind simulation.toParting
      (simulation.tracks_executeWith hcalls hf statement) fun value => ih value

/-- A body that runs in a frame of its own keeps to `P` if its calls do. -/
theorem tracks_enterWith {invoke invoke' : Invocation} (hcalls : P.TracksCalls invoke invoke')
    (hscopes : ∀ function arguments line, Moves SameScopes (invoke function arguments line))
    (hscopes' : ∀ function arguments line, Moves SameScopes (invoke' function arguments line))
    {f : Nat → Nat} (hf : P.relabels f) (function : Function) (arguments : List Value) :
    P.Tracks (function.enterWith invoke arguments)
      ((function.mapLines f).enterWith invoke' arguments) := by
  have hbody := simulation.tracks_executeProgramWith hcalls hf function.body .nil
  refine simulation.tracks_inFrame hbody ?_ ?_ _
  · exact effectBound_sameScopes.moves_executeProgramWith hscopes _ _
  · exact effectBound_sameScopes.moves_executeProgramWith hscopes' _ _

/-- Calls of every depth keep to `P`. By induction on `openFrames`, from
`Simulation.exhausted`. -/
theorem tracksCalls_invoke (openFrames : Nat) :
    P.TracksCalls (Function.invoke openFrames) (Function.invoke (openFrames + extra)) := by
  refine ⟨fun {f g} hf hg function arguments line => ?_, simulation.effect.moves_invoke _⟩
  induction openFrames generalizing f g function arguments line with
  | zero =>
    rw [Nat.zero_add]
    exact simulation.exhausted hf hg function arguments line
  | succ openFrames ih =>
    have hmoves := simulation.effect.moves_invoke (openFrames + 1 + extra) (function.mapLines f)
      arguments (g line)
    rw [Nat.add_right_comm] at hmoves ⊢
    rw [Function.invoke] at hmoves ⊢
    rw [Function.invoke]
    refine .get_bind hmoves fun machine machine' h => ?_
    rw [simulation.depth h, Function.name_mapLines]
    refine .bind simulation.toParting (simulation.tracks_record hf (.calling ..)) fun _ => ?_
    -- Both bodies run with one frame less to open, where calls keep to the pairing.
    exact simulation.tracks_enterWith ⟨ih, simulation.effect.moves_invoke _⟩
      (effectBound_sameScopes.moves_invoke _) (effectBound_sameScopes.moves_invoke _) hf _ _

theorem tracks_executeProgram (openFrames : Nat) {f : Nat → Nat} (hf : P.relabels f)
    (program : Program) (last : Value) :
    P.Tracks (Program.executeWith (Function.invoke openFrames) last program)
      (Program.executeWith (Function.invoke (openFrames + extra)) last (program.mapLines f)) :=
  simulation.tracks_executeProgramWith (simulation.tracksCalls_invoke openFrames) hf program last

/-- Runs keep to `P` if a flush at their end does. -/
theorem agree_run {f : Nat → Nat} (hf : P.relabels f) (hflush : P.Tracks flush flush)
    (program : Program) {machine machine' : Machine} (h : P.together machine machine')
    (hopen : machine'.openFrames = machine.openFrames + extra) :
    P.Agree (program.run machine) (Program.run (Program.mapLines f program) machine') := by
  have hprogram := simulation.tracks_executeProgram machine.openFrames hf program .nil
  unfold Program.run
  rw [bind_of_ok (get_apply machine), bind_of_ok (get_apply machine'), hopen]
  refine (Tracks.bind simulation.toParting hprogram fun value => ?_).agree machine machine' h
  exact .bind simulation.toParting hflush fun _ => .pure value

end Simulation

/-! ## Machines that never part -/

/-- A `Likeness` of machines with equal devices and limits, which every step of a device
keeps. -/
structure Lockstep (together : Machine → Machine → Prop) (relabels : (Nat → Nat) → Prop) : Prop
    extends Likeness together relabels where
  output : ∀ {machine machine'}, together machine machine' → machine'.output = machine.output
  input : ∀ {machine machine'}, together machine machine' → machine'.input = machine.input
  words : ∀ {machine machine'}, together machine machine' → machine'.words = machine.words
  depthLimit : ∀ {machine machine'}, together machine machine' →
    machine'.depthLimit = machine.depthLimit
  write : ∀ {machine machine'}, together machine machine' → ∀ output,
    together { machine with output } { machine' with output }
  read : ∀ {machine machine'}, together machine machine' → ∀ input,
    together { machine with input } { machine' with input }
  draw : ∀ {machine machine'}, together machine machine' → ∀ words,
    together { machine with words } { machine' with words }

namespace Lockstep

/-- The `Pairing` of two evaluations that never part: `parted` is false. -/
def pairing (together : Machine → Machine → Prop) (relabels : (Nat → Nat) → Prop) : Pairing where
  together := together
  relabels := relabels
  parted _ _ _ := False
  onward _ _ := True

variable {together : Machine → Machine → Prop} {relabels : (Nat → Nat) → Prop}

instance : IsPreorder Machine (pairing together relabels).onward where
  refl _ := trivial
  trans _ _ _ _ _ := trivial

theorem parting : (pairing together relabels).Parting where
  effect := effectBound_true
  onward h _ := h
  within _ h := h
  pop h := h

theorem tracks_of_agree {first second : Evaluation α}
    (h : ∀ before before', together before before' →
      (pairing together relabels).Agree (first before) (second before')) :
    (pairing together relabels).Tracks first second :=
  ⟨h, fun _ => trivial⟩

/-- Evaluations that never part end in the same way, with `together` machines. -/
theorem agree_cases {result result' : EStateM.Result Fault Machine α}
    (h : (pairing together relabels).Agree result result') :
    (∃ value after after', result = .ok value after ∧ result' = .ok value after' ∧
      together after after') ∨
    ∃ fault f after after', relabels f ∧ result = .error fault after ∧
      result' = .error (fault.mapLine f) after' ∧ together after after' := by
  -- Without parting, a fault on one side has its counterpart on the other.
  rcases result with ⟨value, after⟩ | ⟨fault, after⟩ <;>
    rcases result' with ⟨value', after'⟩ | ⟨fault', after'⟩
  · obtain ⟨rfl, hafter⟩ := h
    exact .inl ⟨_, after, after', rfl, rfl, hafter⟩
  · exact h.elim
  · exact h.elim
  · rcases h with ⟨⟨f, hf, rfl⟩, hafter⟩ | hparted
    · exact .inr ⟨fault, f, after, after', hf, rfl, rfl, hafter⟩
    · exact hparted.elim

variable (lockstep : Lockstep together relabels)
include lockstep

theorem tracks_writeValue {f : Nat → Nat} (hf : relabels f) (value : Value) (line : Nat) :
    (pairing together relabels).Tracks (writeValue value line) (writeValue value (f line)) := by
  refine tracks_of_agree fun machine machine' h => ?_
  rcases hwritten : machine.output.writeLine value with ⟨output, _ | reason⟩ <;>
    have hwritten' := hwritten <;> rw [← lockstep.output h] at hwritten'
  · rw [writeValue_of_taken hwritten, writeValue_of_taken hwritten']
    exact ⟨rfl, lockstep.write h output⟩
  · rw [writeValue_of_refused hwritten, writeValue_of_refused hwritten']
    exact .inl ⟨⟨f, hf, rfl⟩, lockstep.write h output⟩

theorem tracks_readLine {f : Nat → Nat} (hf : relabels f) (line : Nat) :
    (pairing together relabels).Tracks (readLine line) (readLine (f line)) := by
  refine tracks_of_agree fun machine machine' h => ?_
  rcases hread : Input.readLine machine.input with ⟨error | text, input⟩ <;>
    have hread' := hread <;> rw [← lockstep.input h] at hread'
  · rw [readLine_of_error hread, readLine_of_error hread']
    exact .inl ⟨⟨f, hf, rfl⟩, lockstep.read h input⟩
  · rw [readLine_of_ok hread, readLine_of_ok hread']
    exact ⟨rfl, lockstep.read h input⟩

theorem tracks_drawBelow {f : Nat → Nat} (hf : relabels f) (bound : Value) (line : Nat) :
    (pairing together relabels).Tracks (drawBelow bound line) (drawBelow bound (f line)) := by
  rcases nonneg_or_drawBelow_eq_fail bound with ⟨n, hn, rfl⟩ | ⟨cause, hfail⟩
  · refine tracks_of_agree fun machine machine' h => ?_
    rw [drawBelow_of_nonneg hn, drawBelow_of_nonneg hn, lockstep.words h]
    exact ⟨rfl, lockstep.draw h _⟩
  · rw [hfail, hfail]
    exact .fail hf cause line

/-- Equal depths and limits: `Function.invoke 0` is met on both sides at once, with faults
that agree. -/
theorem tracks_exhausted {f g : Nat → Nat} (hg : relabels g) (function : Function)
    (arguments : List Value) (line : Nat) :
    (pairing together relabels).Tracks (Function.invoke 0 function arguments line)
      (Function.invoke 0 (function.mapLines f) arguments (g line)) := by
  refine tracks_of_agree fun machine machine' h => ?_
  show (pairing together relabels).Agree
    (.error ⟨.depthExceeded machine.depthLimit, line, none⟩ machine)
    (.error ⟨.depthExceeded machine'.depthLimit, g line, none⟩ machine')
  rw [lockstep.depthLimit h]
  exact .inl ⟨⟨g, hg, rfl⟩, h⟩

/-- A flush is refused on both sides or on none. It belongs to no line, so `f` has to keep
zero. -/
theorem tracks_flush {f : Nat → Nat} (hf : relabels f) (hzero : f 0 = 0) :
    (pairing together relabels).Tracks flush flush := by
  refine tracks_of_agree fun machine machine' h => ?_
  unfold flush
  rw [bind_of_ok (get_apply machine), bind_of_ok (get_apply machine'), lockstep.output h]
  rcases machine.output.flushRefusal with _ | reason
  · exact ⟨rfl, h⟩
  · refine .inl ⟨⟨f, hf, ?_⟩, h⟩
    rw [Fault.mapLine, hzero]

/-- A `Lockstep` is a `Simulation`: equal devices give equal answers, so no step parts the two
evaluations. -/
theorem simulation : Simulation (pairing together relabels) 0 where
  toParting := parting
  toLikeness := lockstep.toLikeness
  write := lockstep.tracks_writeValue
  read := lockstep.tracks_readLine
  draw := lockstep.tracks_drawBelow
  exhausted _ hg := lockstep.tracks_exhausted hg

/-- Runs keep to the pairing of a `Lockstep`, if some map on lines keeps zero, the line of
faults that belong to no line. -/
theorem agree_run {f : Nat → Nat} (hf : relabels f) (hzero : ∃ g, relabels g ∧ g 0 = 0)
    (program : Program) {machine machine' : Machine} (h : together machine machine') :
    (pairing together relabels).Agree (program.run machine)
      (Program.run (Program.mapLines f program) machine') := by
  obtain ⟨g, hg, hzero⟩ := hzero
  have hopen : machine'.openFrames = machine.openFrames := by
    unfold Machine.openFrames
    rw [lockstep.depthLimit h, lockstep.depth h]
  exact lockstep.simulation.agree_run hf (lockstep.tracks_flush hg hzero) program h hopen

end Lockstep

end Scriptlet
