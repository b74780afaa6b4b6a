import Mathlib.Data.List.Dedup
import Scriptlet.Proofs.Evaluation.CallDepth

/-!
# The log replays the function table

The function table of a run can be told from its log: at every point of the run, it has the
functions that it had at first and those whose definitions have been logged since, and the last
definition of a name counts. So the log also tells which definitions took the place of others and
with how many arguments a function can be called.

* `replay` goes through the definitions among some events.
* `FunctionTable.Replays` says that a table is what these definitions make of another one.
* `Mark.Step.replays` says so of one step, and `Path.replays` of several.
* `Program.exists_step_of_event` finds the step of a run at which an event is logged.
* `Program.log_replays_functions` is the result.
-/

namespace Scriptlet

open Evaluation

/-! ## Arities -/

namespace FunctionTable

/-- The names of the functions of `table`. -/
def names (table : FunctionTable) : List String :=
  table.functions.map Function.name

/-- The arity of the function of `name`. -/
def arity? (table : FunctionTable) (name : String) : Option Nat :=
  (table.find? name).map Function.arity

theorem isSome_arity?_iff {table : FunctionTable} {name : String} :
    (table.arity? name).isSome ↔ name ∈ table.names := by
  unfold arity? find? names
  rw [Option.isSome_map, List.find?_isSome, List.mem_map]
  simp only [beq_iff_eq]

/-- After `table.define function` its name has the new arity and every other name the old one. -/
theorem arity?_define (table : FunctionTable) (function : Function) (name : String) :
    (table.define function).arity? name =
      if function.name = name then some function.arity else table.arity? name := by
  unfold arity?
  rw [find?_define]
  split <;> rfl

end FunctionTable

/-- The name that an event says is defined. -/
def Event.defined? : Event → Option String
  | .defining name _ => some name
  | _ => none

/-- The arities after an event, from the `arities` before it. Only a definition changes one. -/
def Event.replay (arities : String → Option Nat) : Event → String → Option Nat
  | .defining name arity, other => if name = other then some arity else arities other
  | _, other => arities other

/-- The arities after `events`, in order. -/
def replay (arities : String → Option Nat) (events : List Event) : String → Option Nat :=
  events.foldl Event.replay arities

@[simp]
theorem replay_nil (arities : String → Option Nat) : replay arities [] = arities := rfl

theorem replay_cons (arities : String → Option Nat) (event : Event) (events : List Event) :
    replay arities (event :: events) = replay (event.replay arities) events := rfl

theorem replay_append (arities : String → Option Nat) (events events' : List Event) :
    replay arities (events ++ events') = replay (replay arities events) events' :=
  List.foldl_append

/-- A name is known after `events` if it was known before them or if one of them defines it. -/
theorem isSome_replay_iff {arities : String → Option Nat} {events : List Event} {name : String} :
    (replay arities events name).isSome ↔
      (arities name).isSome ∨ name ∈ events.filterMap Event.defined? := by
  induction events generalizing arities with
  | nil => simp
  | cons event events ih =>
    rw [replay_cons, ih]
    rcases event with ⟨line, depth, statement⟩ | ⟨defined, arity⟩ | defined | ⟨callee, depth⟩
    -- Only a definition changes what is known, and it makes its own name known.
    case defining =>
      show (ite _ _ _ : Option Nat).isSome ∨ _ ↔ _ ∨ name ∈ defined :: _
      by_cases h : defined = name
      · simp [h]
      · simp [h, Ne.symm h]
    all_goals exact Iff.rfl

/-- The table `table` is what the definitions among `events` make of the table `initial`. -/
structure FunctionTable.Replays (initial : FunctionTable) (events : List Event)
    (table : FunctionTable) : Prop where
  /-- The table has the arities that `replay` gives: the last definition of a name counts. -/
  arity? : table.arity? = replay initial.arity? events
  /-- No name of `initial` disappears. -/
  kept : initial.names ⊆ table.names
  /-- There is one function for each name that is in `initial` or defined by one of `events`. -/
  size : table.size = (initial.names ++ events.filterMap Event.defined?).dedup.length
  /-- Each function is stored under its own name. -/
  stored : ∀ name function, table.find? name = some function → function.name = name

/-- If `more` events have led to `table'` than to `table`, it has all the names of `table`. -/
theorem FunctionTable.names_subset_of_replay {initial table table' : FunctionTable}
    {earlier more : List Event} (h : table.arity? = replay initial.arity? earlier)
    (h' : table'.arity? = replay initial.arity? (earlier ++ more)) :
    table.names ⊆ table'.names := by
  intro name hname
  rw [← isSome_arity?_iff, h] at hname
  rw [← isSome_arity?_iff, h', replay_append]
  exact isSome_replay_iff.mpr (.inl hname)

/-- What `Replays` asks for follows from its first field: a table with the right arities has
the right names, and as many functions as names. -/
theorem FunctionTable.Replays.of_arity? {initial table : FunctionTable} {events : List Event}
    (h : table.arity? = replay initial.arity? events) : initial.Replays events table := by
  have hnames (name : String) :
      name ∈ table.names ↔ name ∈ initial.names ++ events.filterMap Event.defined? := by
    rw [← isSome_arity?_iff, h, isSome_replay_iff, isSome_arity?_iff, List.mem_append]
  refine ⟨h, fun name hname => (hnames name).mpr (List.mem_append_left _ hname), ?_,
    fun _ _ => name_of_find?⟩
  have hperm := (List.perm_ext_iff_of_nodup table.distinct (List.nodup_dedup _)).mpr
    fun name => (hnames name).trans List.mem_dedup.symm
  rw [← hperm.length_eq, List.length_map]
  rfl

/-! ## Steps -/

theorem Statement.arity?_finish_define (name : String) (parameters : List String)
    (body : List Statement) (line : Nat) (value : Value) (start : Machine) :
    let tree := Statement.define name parameters body line
    ((tree.finish value).after (start.starting tree)).functions.arity? =
      replay start.functions.arity? ((Point.events ⟨.statement tree, start⟩).drop 1) := by
  have harity : (start.functions.define ⟨name, parameters, body⟩).arity? =
      Event.replay start.functions.arity? (.defining name parameters.length) :=
    funext fun other => start.functions.arity?_define ⟨name, parameters, body⟩ other
  dsimp only
  rw [after_finish_define]
  show _ = replay _ (.defining name parameters.length ::
    if (start.functions.find? name).isSome then [.redefined name] else [])
  -- That the definition takes the place of another one makes no difference.
  by_cases hknown : (start.functions.find? name).isSome
  · rw [if_pos hknown, if_pos (by exact hknown)]
    exact harity
  · rw [if_neg hknown, if_neg (by exact hknown)]
    exact harity

/-- A step changes the arities as `replay` does with the events of its `mark`. -/
theorem Mark.Step.replays {mark : Mark} {before after : Machine} (h : mark.Step before after) :
    after.functions.arity? = replay before.functions.arity? mark.events := by
  cases h with
  | startExpression _ _ => rfl
  | stopExpression _ _ _ => rfl
  | startStatement _ _ => rfl
  | @finish tree start between value hoperand =>
    rcases tree with ⟨name, e, line⟩ | ⟨e, line⟩ | ⟨name, line⟩ | ⟨name, e, line⟩ |
      ⟨name, parameters, body, line⟩ | ⟨e, line⟩
    -- A definition is the only step that changes the table.
    case define =>
      cases hoperand
      exact Statement.arity?_finish_define name parameters body line .nil start
    all_goals
      refine congrArg FunctionTable.arity? ((Statement.leaves_finish _ _ _).functions ?_)
      intro _ _ _ _ heq
      cases heq
  | abandon h => rw [Mark.events_stop_of_evaluateOperand_error h, replay_nil]
  | enter hroom function values line =>
    rw [Mark.events_start_call_of_lt_limit hroom]
    rfl
  | leave _ function values line =>
    rw [Mark.events_stop_call]
    rfl
  | refuse hlimit function values line =>
    rw [Mark.events_start_call_of_limit_le hlimit]
    rfl
  | giveUp _ function values line =>
    rw [Mark.events_stop_call]
    rfl

/-- Some steps replay the events of their marks. By induction on the path, with
`Mark.Step.replays` at each mark. -/
theorem Path.replays {marks : List Mark} {before after : Machine} (h : Path before marks after) :
    before.functions.Replays (marks.flatMap Mark.events) after.functions := by
  refine .of_arity? ?_
  induction h with
  | nil _ => rfl
  | cons hstep _ ih => rw [ih, hstep.replays, List.flatMap_cons, replay_append]

/-! ## Events of a step -/

/-- A step that logs `.defining` is the end of a `.define` statement of that name and arity,
and `.redefined` comes behind it if `start` has a function of the name. -/
theorem Mark.Step.of_defining {mark : Mark} {before after : Machine} {earlier later : List Event}
    {name : String} {arity : Nat} (h : mark.Step before after)
    (hevents : mark.events = earlier ++ .defining name arity :: later) :
    earlier = [] ∧ ∃ parameters body line start,
      mark = .stop ⟨.statement (.define name parameters body line), start⟩ ∧
        before = start.starting (.define name parameters body line) ∧
        parameters.length = arity ∧
        later = if (start.functions.find? name).isSome then [.redefined name] else [] := by
  rcases h.events_cases with hcase | ⟨_, _, _, hcase⟩ |
    ⟨defined, parameters, body, line, start, hmark, hbefore, hcase⟩ | ⟨_, _, _, -, hcase⟩ <;>
    rw [hcase] at hevents
  · simp at hevents
  · simp [List.singleton_eq_append_iff] at hevents
  · rcases List.cons_eq_append_iff.mp hevents with ⟨rfl, heq⟩ | ⟨_, -, hrest⟩
    · cases heq
      exact ⟨rfl, parameters, body, line, start, hmark, hbefore, rfl, rfl⟩
    · split at hrest <;> simp [List.singleton_eq_append_iff] at hrest
  · simp [List.singleton_eq_append_iff] at hevents

/-- A step that logs `.redefined` has just logged `.defining` for the same name. -/
theorem Mark.Step.of_redefined {mark : Mark} {before after : Machine} {earlier later : List Event}
    {name : String} (h : mark.Step before after)
    (hevents : mark.events = earlier ++ .redefined name :: later) :
    ∃ arity, earlier = [.defining name arity] := by
  rcases h.events_cases with hcase | ⟨_, _, _, hcase⟩ |
    ⟨defined, parameters, body, line, start, -, -, hcase⟩ | ⟨_, _, _, -, hcase⟩ <;>
    rw [hcase] at hevents
  · simp at hevents
  · simp [List.singleton_eq_append_iff] at hevents
  · rcases List.cons_eq_append_iff.mp hevents with ⟨-, heq⟩ | ⟨rest, rfl, hrest⟩
    · cases heq
    · split at hrest
      · rcases List.cons_eq_append_iff.mp hrest with ⟨rfl, heq⟩ | ⟨_, -, hnil⟩
        · cases heq
          exact ⟨parameters.length, rfl⟩
        · simp at hnil
      · simp at hrest
  · simp [List.singleton_eq_append_iff] at hevents

/-- A step that logs `.calling` is the start of a call of a function with that name. -/
theorem Mark.Step.of_calling {mark : Mark} {before after : Machine} {earlier later : List Event}
    {name : String} {depth : Nat} (h : mark.Step before after)
    (hevents : mark.events = earlier ++ .calling name depth :: later) :
    earlier = [] ∧ ∃ function values line,
      mark = .start ⟨.call function values line, before⟩ ∧ function.name = name := by
  rcases h.events_cases with hcase | ⟨_, _, _, hcase⟩ |
    ⟨defined, parameters, body, line, start, -, -, hcase⟩ |
    ⟨function, values, line, hmark, hcase⟩ <;> rw [hcase] at hevents
  · simp at hevents
  · simp [List.singleton_eq_append_iff] at hevents
  · rcases List.cons_eq_append_iff.mp hevents with ⟨-, heq⟩ | ⟨_, -, hrest⟩
    · cases heq
    · split at hrest <;> simp [List.singleton_eq_append_iff] at hrest
  · rcases List.cons_eq_append_iff.mp hevents with ⟨rfl, heq⟩ | ⟨_, -, hnil⟩
    · cases heq
      exact ⟨rfl, function, values, line, hmark, rfl⟩
    · simp at hnil

/-! ## Runs -/

/-- The step at which a run logs `event`, and the steps in front of it and behind it. -/
theorem Program.exists_step_of_event {program : Program} {machine : Machine}
    {earlier later : List Event} {event : Event}
    (h : (program.trail machine).flatMap Mark.events = earlier ++ event :: later) :
    ∃ first mark last before behind between between', mark ∈ program.trail machine ∧
      Path machine first between ∧ mark.Step between between' ∧
      Path between' last (program.run.after machine) ∧ mark.events = before ++ event :: behind ∧
      earlier = first.flatMap Mark.events ++ before ∧
      later = behind ++ last.flatMap Mark.events := by
  obtain ⟨first, mark, last, before, behind, htrail, hmark, hearlier, hlater⟩ :=
    Mark.exists_of_flatMap_events h
  have hpath := program.path machine
  rw [htrail] at hpath ⊢
  -- The path of the run is cut in front of the mark of the event.
  obtain ⟨between, hfirst, hrest⟩ := hpath.exists_of_append
  cases hrest with
  | cons hstep hlast =>
    exact ⟨first, mark, last, before, behind, between, _,
      List.mem_append_right _ List.mem_cons_self, hfirst, hstep, hlast, hmark, hearlier, hlater⟩

/-- The events of a `Path` do not begin with `.redefined`, which no step logs first. -/
theorem Path.head?_events_ne_redefined {before after : Machine} {marks : List Mark}
    (h : Path before marks after) (name : String) :
    (marks.flatMap Mark.events).head? ≠ some (.redefined name) := by
  induction h with
  | nil _ => exact nofun
  | cons hstep _ ih =>
    rw [List.flatMap_cons]
    rcases hstep.events_cases with hevents | ⟨_, _, _, hevents⟩ | ⟨_, _, _, _, _, -, -, hevents⟩ |
      ⟨_, _, _, -, hevents⟩ <;> rw [hevents]
    · exact ih
    all_goals
      intro heq
      cases heq

/-- Where the events of a run have `.defining`, a `.define` statement of its `history` has
just ended, and `.redefined` is the next event exactly if a function of the name was there. -/
theorem Program.exists_definition_of_event {program : Program} {machine : Machine}
    {earlier later : List Event} {name : String} {arity : Nat}
    (h : (program.trail machine).flatMap Mark.events =
      earlier ++ .defining name arity :: later) :
    ∃ parameters body line start,
      ⟨.statement (.define name parameters body line), start⟩ ∈ program.history machine ∧
        (start.starting (.define name parameters body line)).log =
          earlier.reverse ++ machine.log ∧
        parameters.length = arity ∧
        (later.head? = some (.redefined name) ↔ name ∈ start.functions.names) := by
  obtain ⟨first, mark, last, before, behind, between, between', hmem, hfirst, hstep, hlast,
    hevents, rfl, rfl⟩ := Program.exists_step_of_event h
  obtain ⟨rfl, parameters, body, line, start, rfl, rfl, harity, hbehind⟩ :=
    hstep.of_defining hevents
  rw [List.append_nil]
  refine ⟨parameters, body, line, start, Program.mem_history_of_mem_trail hmem, hfirst.logs,
    harity, ?_⟩
  have hknown : (start.functions.find? name).isSome ↔ name ∈ start.functions.names := by
    rw [← FunctionTable.isSome_arity?_iff, FunctionTable.arity?, Option.isSome_map]
  -- The next event is that of the same step, if it has one more, or the first one of a later
  -- step.
  rw [hbehind, ← hknown]
  split
  · rename_i hfound
    exact ⟨fun _ => hfound, fun _ => rfl⟩
  · rename_i hfound
    exact ⟨fun heq => absurd heq (hlast.head?_events_ne_redefined name),
      fun heq => absurd heq hfound⟩

/-- A call is logged when the run `ReachesCall`: its arguments have been evaluated on the
machine `before`. -/
theorem Program.exists_reachesCall_of_event {program : Program} {machine : Machine}
    {earlier later : List Event} {name : String} {depth : Nat}
    (h : (program.trail machine).flatMap Mark.events = earlier ++ .calling name depth :: later) :
    ∃ function values line before, program.ReachesCall machine function values line before ∧
      function.name = name ∧ before.log = earlier.reverse ++ machine.log := by
  obtain ⟨first, mark, last, before, behind, between, between', hmem, hfirst, hstep, -, hevents,
    rfl, -⟩ := Program.exists_step_of_event h
  obtain ⟨rfl, function, values, line, rfl, hname⟩ := hstep.of_calling hevents
  rw [List.append_nil]
  exact ⟨function, values, line, between,
    Program.reachesCall_iff.mpr (Program.mem_history_of_mem_trail hmem), hname, hfirst.logs⟩

/-- **The log replays the function table.** Whether the run of `program` gives a value or ends
in a fault, the `events` that it has logged make the function table at its end of the one at
its start, as `Replays` says: the last definition of a name counts, no name disappears, there
is one function for each name that was there or is defined, and each function is stored under
its own name. The same holds at every point of the history for what has been logged up to
there. A definition is followed by a redefinition if a function of its name was there when it
was made, and redefinitions stand nowhere else. A call is logged when the run `ReachesCall`,
after a function of its name that takes as many arguments was found in the table. -/
theorem Program.log_replays_functions (program : Program) (machine : Machine) :
    ∃ events, (program.run.after machine).log = events.reverse ++ machine.log ∧
      machine.functions.Replays events (program.run.after machine).functions ∧
      (∀ point ∈ program.history machine, ∃ earlier later, events = earlier ++ later ∧
        point.machine.log = earlier.reverse ++ machine.log ∧
        machine.functions.Replays earlier point.machine.functions ∧
        point.machine.functions.Replays later (program.run.after machine).functions) ∧
      (∀ point ∈ program.history machine, ∀ point' ∈ program.history machine,
        point.machine.log <:+ point'.machine.log →
        point.machine.functions.names ⊆ point'.machine.functions.names) ∧
      (∀ earlier name arity later, events = earlier ++ .defining name arity :: later →
        ∃ parameters body line start,
          ⟨.statement (.define name parameters body line), start⟩ ∈ program.history machine ∧
          (start.starting (.define name parameters body line)).log =
            earlier.reverse ++ machine.log ∧
          parameters.length = arity ∧
          (later.head? = some (.redefined name) ↔ name ∈ start.functions.names)) ∧
      (∀ earlier name later, events = earlier ++ .redefined name :: later →
        ∃ before arity, earlier = before ++ [.defining name arity]) ∧
      ∀ earlier name depth later, events = earlier ++ .calling name depth :: later →
        ∃ function values line before, program.ReachesCall machine function values line before ∧
          function.name = name ∧ before.log = earlier.reverse ++ machine.log := by
  have hpath := program.path machine
  have hpoint (point : Point) (h : point ∈ program.history machine) :
      ∃ earlier later, (program.trail machine).flatMap Mark.events = earlier ++ later ∧
        point.machine.log = earlier.reverse ++ machine.log ∧
        machine.functions.Replays earlier point.machine.functions ∧
        point.machine.functions.Replays later (program.run.after machine).functions := by
    obtain ⟨marks, marks', htrail, hbefore, hafter⟩ := Program.exists_path_of_mem_history h
    rw [htrail, List.flatMap_append]
    exact ⟨_, _, rfl, hbefore.logs, hbefore.replays, hafter.replays⟩
  refine ⟨_, hpath.logs, hpath.replays, hpoint, fun point hmem point' hmem' hlog => ?_,
    fun _ _ _ _ => Program.exists_definition_of_event, fun earlier name later h => ?_,
    fun _ _ _ _ => Program.exists_reachesCall_of_event⟩
  · obtain ⟨earlier, later, -, hearlier, hreplays, -⟩ := hpoint point hmem
    obtain ⟨earlier', later', -, hearlier', hreplays', -⟩ := hpoint point' hmem'
    -- What has been logged at the one point has been logged at the other.
    rw [hearlier, hearlier', List.suffix_append_self_iff, List.reverse_suffix] at hlog
    obtain ⟨more, rfl⟩ := hlog
    exact FunctionTable.names_subset_of_replay hreplays.arity? hreplays'.arity?
  · obtain ⟨first, mark, last, before, behind, between, between', -, -, hstep, -, hevents,
      rfl, -⟩ :=
      Program.exists_step_of_event h
    obtain ⟨arity, rfl⟩ := hstep.of_redefined hevents
    exact ⟨_, arity, rfl⟩

/-- A program with a function that is replaced while the argument of a call of it is
evaluated. -/
def Program.replacing : Program :=
  [.define "f" ["a"] [.evaluate (.identifier "a" 1) 1] 1,
    .define "g" [] [.define "f" ["a", "b"] [] 2] 2,
    .evaluate (.call "f" [.call "g" [] 3] 3) 3]

/-- What `Program.replacing` logs up to the call. -/
def Program.replacingEvents : List Event :=
  [.executing 1 0 "definition of `f`", .defining "f" 1, .executing 2 0 "definition of `g`",
    .defining "g" 0, .executing 3 0 "call to `f`", .calling "g" 1,
    .executing 2 1 "definition of `f`", .defining "f" 2, .redefined "f"]

/-- In `Program.replacing` the call is reached with the function that was found, although
another one has taken its place when the call is logged. -/
theorem replacing_reaches_replaced_function :
    let machine := Machine.fresh .unlimited [] (.scripted []) 1
    let body := [Event.calling "f" 1, .executing 1 1 "function result"]
    (Program.replacing.run.after machine).log = (Program.replacingEvents ++ body).reverse ∧
      (∃ function values line before,
        Program.replacing.ReachesCall machine function values line before ∧
          function.name = "f" ∧ before.log = Program.replacingEvents.reverse) ∧
      (Program.replacing.run.after machine).functions.size = 2 := by
  intro machine body
  -- The log is computed, and the rest follows from it by the theorem on all programs.
  have hlog : (Program.replacing.run.after machine).log =
      (Program.replacingEvents ++ body).reverse := by decide +kernel
  obtain ⟨events, hevents, hreplays, -, -, -, -, hcalls⟩ :=
    Program.replacing.log_replays_functions machine
  have hnothing : machine.log = [] := rfl
  rw [hlog, hnothing, List.append_nil] at hevents
  rw [← List.reverse_injective hevents] at hreplays hcalls
  obtain ⟨function, values, line, before, hreaches, hname, hbefore⟩ :=
    hcalls Program.replacingEvents "f" 1 _ rfl
  rw [hnothing, List.append_nil] at hbefore
  exact ⟨hlog, ⟨function, values, line, before, hreaches, hname, hbefore⟩,
    hreplays.size.trans (by decide)⟩

end Scriptlet
