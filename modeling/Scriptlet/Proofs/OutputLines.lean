import Scriptlet.Proofs.Evaluation.Discipline
import Scriptlet.Proofs.Evaluation.Trail
import Scriptlet.Proofs.Newlines
import Scriptlet.Proofs.Rendering

/-!
# One line for each write

Source texts that are run one after the other on a machine only ever compute values of one line. So
each write that is completed adds one line to the output, and nothing else adds to it.

* `runSources` runs source texts one after the other, and `runsOf` are the runs that this takes.
* `oneLine` is the discipline of source code and of values of one line, and `sound_oneLine` says
  that every way in which values come about keeps to it.
* `Mark.written?` is the value that a write has written, and `Path.output` says what the steps of a
  run add to an output without end.
* `output_has_one_line_for_each_write` is the result.
-/

namespace Scriptlet

open Evaluation Lexicon

/-! ## Sessions -/

/-- Runs `sources` one after the other, whatever each of them ends in. -/
def runSources (sources : List String) (machine : Machine) : Machine :=
  sources.foldl (fun machine source => (runSource source machine).2) machine

/-- The runs of `sources` one after the other: the programs, each with the machine that it is
run on. A text that is no program is not run. -/
def runsOf : List String → Machine → List (Program × Machine)
  | [], _ => []
  | source :: sources, machine =>
    match readSource source with
    | .error _ => runsOf sources machine
    | .ok program => (program, machine) :: runsOf sources (program.run.after machine)

/-- All points that `runsOf sources machine` passes through. -/
def sessionHistory (sources : List String) (machine : Machine) : List Point :=
  (runsOf sources machine).flatMap fun run => run.1.history run.2

/-- All marks of `runsOf sources machine`, in order. -/
def sessionTrail (sources : List String) (machine : Machine) : List Mark :=
  (runsOf sources machine).flatMap fun run => run.1.trail run.2

theorem runSource_snd {source : String} {program : Program}
    (h : readSource source = .ok program) (machine : Machine) :
    (runSource source machine).2 = program.run.after machine := by
  unfold runSource
  rw [h]
  dsimp only
  rcases hrun : program.run machine with ⟨value, after⟩ | ⟨fault, after⟩
  · rw [after_of_ok hrun]
  · rw [after_of_error hrun]

theorem runSources_cons (source : String) (sources : List String) (machine : Machine) :
    runSources (source :: sources) machine = runSources sources (runSource source machine).2 := rfl

/-- The trail of a session leads from `machine` to what `runSources` leaves, run by run. -/
theorem path_runSources (sources : List String) (machine : Machine) :
    Path machine (sessionTrail sources machine) (runSources sources machine) := by
  induction sources generalizing machine with
  | nil => exact .nil machine
  | cons source sources ih =>
    rw [runSources_cons, sessionTrail, runsOf]
    rcases hread : readSource source with error | program
    · rw [runSource_of_readSource_error hread]
      exact ih machine
    · rw [runSource_snd hread]
      exact (program.path machine).append (ih _)

/-! ## Source code -/

/-- A statement that stands in a source text: it is `Writable` on its own, or it is the
`evaluate` statement that a short body stands for. -/
def Statement.Written (tree : Statement) : Prop :=
  tree.Writable ∨ ∃ value line, tree = .evaluate value line ∧ value.Writable

theorem Expression.writable_of_mem {trees : List Expression} {tree : Expression}
    (h : Expression.allWritable trees) (htree : tree ∈ trees) : tree.Writable := by
  induction trees with
  | nil => cases htree
  | cons first rest ih =>
    rcases List.mem_cons.mp htree with rfl | hrest
    · exact h.1
    · exact ih h.2 hrest

theorem Statement.writable_of_mem {trees : List Statement} {tree : Statement}
    (h : Statement.allWritable trees) (htree : tree ∈ trees) : tree.Writable := by
  induction trees with
  | nil => cases htree
  | cons first rest ih =>
    rcases List.mem_cons.mp htree with rfl | hrest
    · exact h.1
    · exact ih h.2 hrest

theorem Expression.Writable.operands {tree part : Expression} (h : tree.Writable)
    (hpart : part ∈ tree.operands) : part.Writable := by
  rcases tree with n | text | ⟨name, line⟩ | ⟨op, left, right, line⟩ | items |
    ⟨name, arguments, line⟩
  · cases hpart
  · cases hpart
  · cases hpart
  · simp only [Expression.operands, List.mem_cons, List.not_mem_nil, or_false] at hpart
    rcases hpart with rfl | rfl
    · exact h.1
    · exact h.2
  · exact Expression.writable_of_mem h hpart
  · exact Expression.writable_of_mem h.2 hpart

theorem Statement.Written.operand {tree : Statement} {operand : Expression} (h : tree.Written)
    (hoperand : tree.operand? = some operand) : operand.Writable := by
  rcases h with h | ⟨value, line, rfl, h⟩
  · rcases tree with ⟨name, e, line⟩ | ⟨e, line⟩ | ⟨name, line⟩ | ⟨name, e, line⟩ |
      ⟨name, parameters, body, line⟩ | ⟨e, line⟩ <;> cases hoperand
    · exact h.2
    · exact h
    · exact h.2
    · exact h.2
  · cases hoperand
    exact h

theorem Statement.Written.body {tree part : Statement} (h : tree.Written)
    (hpart : part ∈ tree.body) : part.Written := by
  rcases h with h | ⟨value, line, rfl, -⟩
  · rcases tree with ⟨name, e, line⟩ | ⟨e, line⟩ | ⟨name, line⟩ | ⟨name, e, line⟩ |
      ⟨name, parameters, body, line⟩ | ⟨e, line⟩
    case define =>
      rcases h.2.2.2 with ⟨value, line, rfl, hvalue⟩ | ⟨-, hall⟩
      · rw [List.mem_singleton.mp hpart]
        exact .inr ⟨value, line, rfl, hvalue⟩
      · exact .inl (Statement.writable_of_mem hall hpart)
    all_goals cases hpart
  · cases hpart

/-- The discipline of source code: values are `OneLine`, expressions `Writable` and statements
`Written`. -/
def oneLine : Discipline where
  value := Value.OneLine
  expression := Expression.Writable
  statement := Statement.Written

/-- Source code only computes values of one line: every way in which values come about keeps
to `oneLine`. -/
theorem sound_oneLine : oneLine.Sound where
  operand h hoperand := h.operand hoperand
  body h hinner := h.body hinner
  operands h hinner := h.operands hinner
  literal _ := List.forall_mem_nil _
  string h hscope :=
    Value.oneLine_string (Environment.oneLine_interpolate hscope (StringBody.oneLine h))
  list h := Value.oneLine_list h
  operator hleft hright h := BinaryOp.oneLine_of_apply hleft hright h
  line h := Value.oneLine_string (oneLine_of_readLine h)
  draw _ _ _ := List.forall_mem_nil _
  nil := List.forall_mem_nil _

/-- The statements of a program that `readSource` gives are `Written`. -/
theorem written_of_readSource {source : String} {program : Program}
    (h : readSource source = .ok program) : ∀ tree ∈ program, tree.Written :=
  fun _ htree => .inl (Statement.writable_of_mem (writable_and_renders_of_readSource h).1.2 htree)

/-- When `oneLine` allows `machine`, it allows every point of the runs of `sources`, the
results of the runs and the machine at the end. -/
theorem oneLine_runSources {machine : Machine} (hmachine : oneLine.AllowsMachine machine)
    (sources : List String) :
    (∀ point ∈ sessionHistory sources machine, oneLine.Allows point) ∧
      (∀ run ∈ runsOf sources machine, oneLine.Ensures Value.OneLine run.1.run run.2) ∧
      oneLine.AllowsMachine (runSources sources machine) := by
  -- Each text runs on the machine that the ones before it leave, so the machine is generalized.
  induction sources generalizing machine with
  | nil => exact ⟨List.forall_mem_nil _, List.forall_mem_nil _, hmachine⟩
  | cons source sources ih =>
    rw [runSources_cons, sessionHistory, runsOf]
    rcases hread : readSource source with error | program
    · rw [runSource_of_readSource_error hread]
      exact ih hmachine
    · -- The run leaves a machine from which the other texts go on.
      rw [runSource_snd hread]
      have hwritten := written_of_readSource hread
      have hrun := sound_oneLine.ensures_run hwritten hmachine
      obtain ⟨hpoints, hruns, hafter⟩ := ih hrun.after
      exact ⟨List.forall_mem_append.mpr
        ⟨sound_oneLine.allows_programHistory hwritten hmachine, hpoints⟩,
        List.forall_mem_cons.mpr ⟨hrun, hruns⟩, hafter⟩

/-! ## Lines -/

/-- The value that a write has written when it ends: the result of a mark `stop` at a write
that succeeds. -/
def Mark.written? : Mark → Option Value
  | .stop ⟨.statement (.write value line), machine⟩ =>
    match (Statement.write value line).execute machine with
    | .ok written _ => some written
    | .error _ _ => none
  | _ => none

/-- The text of each of `values` on a line of its own. -/
def linesOf (values : List Value) : String :=
  String.join (values.map fun value => value.text ++ "\n")

theorem linesOf_cons (value : Value) (values : List Value) :
    linesOf (value :: values) = value.text ++ "\n" ++ linesOf values := by
  unfold linesOf
  rw [List.map_cons, String.join_cons]

/-- The sink with `text` behind what it was given. -/
def Sink.append (sink : Sink) (text : String) : Sink :=
  { sink with written := sink.written ++ text.toUTF8 }

theorem Sink.append_append (sink : Sink) (text text' : String) :
    (sink.append text).append text' = sink.append (text ++ text') := by
  unfold append
  rw [String.toUTF8_eq_toByteArray, String.toUTF8_eq_toByteArray, String.toUTF8_eq_toByteArray,
    String.toByteArray_append, ByteArray.append_assoc]

theorem Sink.append_empty (sink : Sink) : sink.append "" = sink := by
  unfold append
  rw [String.toUTF8_eq_toByteArray, String.toByteArray_empty, ByteArray.append_empty]

theorem Mark.written?_of_ne {tree : Statement} (h : ∀ operand line, tree ≠ .write operand line)
    (machine : Machine) : Mark.written? (.stop ⟨.statement tree, machine⟩) = none := by
  rcases tree with ⟨name, e, line⟩ | ⟨e, line⟩ | ⟨name, line⟩ | ⟨name, e, line⟩ |
    ⟨name, parameters, body, line⟩ | ⟨e, line⟩
  case write => exact absurd rfl (h e line)
  all_goals rfl

/-- A step of a run adds the line of the value `mark.written?` to an output without end, and
nothing else. The step lemma behind `Path.output`. -/
theorem Mark.Step.output {machine after : Machine} {mark : Mark} (h : mark.Step machine after)
    (hroom : machine.output.room = none) :
    after.output = machine.output.append (linesOf mark.written?.toList) := by
  -- Only the end of a write that has a value changes the output.
  have hnothing : machine.output = machine.output.append (linesOf []) :=
    machine.output.append_empty.symm
  cases h with
  | startExpression _ _ => exact hnothing
  | stopExpression _ _ _ => exact hnothing
  | startStatement _ _ => exact hnothing
  | @finish tree start _ value h =>
    by_cases hwrite : ∃ operand line, tree = .write operand line
    · obtain ⟨operand, line, rfl⟩ := hwrite
      have htaken := Sink.writeLine_of_room_eq_none hroom value
      have hexecute : (Statement.write operand line).execute start =
          .ok value { machine with output := machine.output.append (value.text ++ "\n") } := by
        rw [Statement.execute_of_evaluateOperand h, Statement.finish]
        unfold Evaluation.within
        rw [bind_of_ok (writeValue_of_taken htaken line)]
        rfl
      have hline : linesOf [value] = value.text ++ "\n" := String.empty_append
      rw [Statement.after_finish_write, htaken, written?, hexecute, Option.toList_some, hline]
      rfl
    · have hother (operand : Expression) (line : Nat) : tree ≠ .write operand line :=
        fun heq => hwrite ⟨operand, line, heq⟩
      rw [(tree.leaves_finish value machine).output hother, written?_of_ne hother]
      exact hnothing
  | @abandon tree start _ _ h =>
    -- A write that has ended in a fault has written nothing.
    by_cases hwrite : ∃ operand line, tree = .write operand line
    · obtain ⟨operand, line, rfl⟩ := hwrite
      rw [written?, Statement.execute_of_evaluateOperand_error h]
      exact hnothing
    · rw [written?_of_ne fun operand line heq => hwrite ⟨operand, line, heq⟩]
      exact hnothing
  | enter _ _ _ _ => exact hnothing
  | leave _ _ _ _ _ => exact hnothing
  | refuse _ _ _ _ => exact hnothing
  | giveUp _ _ _ _ _ => exact hnothing

theorem linesOf_append (values values' : List Value) :
    linesOf (values ++ values') = linesOf values ++ linesOf values' := by
  unfold linesOf
  rw [List.map_append, String.join_append]

/-- Some steps of a run add the lines of the writes that end, in order, to an output without
end. By induction on the path, with `Mark.Step.output` at each mark. -/
theorem Path.output {machine after : Machine} {marks : List Mark} (h : Path machine marks after)
    (hroom : machine.output.room = none) :
    after.output = machine.output.append (linesOf (marks.filterMap Mark.written?)) := by
  induction h with
  | nil machine => exact machine.output.append_empty.symm
  | @cons before between after mark marks hstep _ ih =>
    have hbetween := hstep.output hroom
    have hmarks : (mark :: marks).filterMap Mark.written? =
        mark.written?.toList ++ marks.filterMap Mark.written? := by
      rw [List.filterMap_cons]
      rcases mark.written? with _ | value <;> rfl
    rw [ih (by rw [hbetween]; exact hroom), hbetween, Sink.append_append, hmarks, linesOf_append]

/-- Lines of values that are `OneLine` have as many newlines as there are values. -/
theorem count_newline_linesOf {values : List Value} (h : ∀ value ∈ values, value.OneLine) :
    (linesOf values).toUTF8.data.toList.count Input.newline = values.length := by
  rw [count_newline_toUTF8]
  induction values with
  | nil => rfl
  | cons value values ih =>
    rw [List.forall_mem_cons] at h
    have htext : value.text.toList.count '\n' = 0 :=
      List.count_eq_zero.mpr (Value.oneLine_text h.1)
    rw [linesOf_cons, String.toList_append, String.toList_append, List.count_append,
      List.count_append, htext, ih h.2, List.length_cons, Nat.add_comm]
    rfl

/-! ## Sessions keep to lines -/

/-- All values in the scopes of `machine` are `OneLine`. -/
def Machine.OneLine (machine : Machine) : Prop :=
  ∀ scope ∈ machine.globals :: machine.frames, ∀ name value, scope.find? name = some value →
    value.OneLine

theorem Machine.oneLine_of_allows {machine : Machine} (h : oneLine.AllowsMachine machine) :
    machine.OneLine :=
  List.forall_mem_cons.mpr ⟨h.globals, h.frames⟩

/-- All values that are there at `point` and at its end are `OneLine`: those of the machine,
the arguments of a call, and the result. -/
structure Point.OneLine (point : Point) : Prop where
  machine : point.machine.OneLine
  arguments : ∀ function arguments line, point.task = .call function arguments line →
    ∀ value ∈ arguments, value.OneLine
  result : ∀ value after, point.result = .ok value after → value.OneLine
  after : point.after.OneLine

/-- A point that `oneLine` allows has values of one line. -/
theorem Point.oneLine_of_allows {point : Point} (h : oneLine.Allows point) : point.OneLine where
  machine := Machine.oneLine_of_allows h.machine
  arguments function arguments line htask := by
    have hallows := h.task
    rw [htask] at hallows
    exact hallows.2
  result _ _ hresult := (sound_oneLine.keeps h).2.value hresult
  after := Machine.oneLine_of_allows (sound_oneLine.keeps h).2.after

/-- What a mark has written is the result of its point. -/
theorem Mark.exists_result_of_written? {mark : Mark} {value : Value}
    (h : mark.written? = some value) : ∃ after, mark.point.result = .ok value after := by
  unfold written? at h
  split at h
  · split at h <;> cases h
    rename_i hresult
    exact ⟨_, hresult⟩
  · cases h

/-- The points of the marks of a session are those of its `sessionHistory`. -/
theorem mem_sessionHistory_of_mem_sessionTrail {sources : List String} {machine : Machine}
    {mark : Mark} (h : mark ∈ sessionTrail sources machine) :
    mark.point ∈ sessionHistory sources machine := by
  obtain ⟨run, hrun, hmark⟩ := List.mem_flatMap.mp h
  exact List.mem_flatMap.mpr ⟨run, hrun, Program.mem_history_of_mem_trail hmark⟩

/-- **Each write that is completed adds one line to the output.** Let `machine` be one on
which nothing has happened, and let `sources` be run on it one after the other. Then all
values at all points of `sessionHistory` and all results of `runsOf` are `OneLine`. An output
without end is given `linesOf` the values that `Mark.written?` finds in `sessionTrail`, in the
order in which the writes are completed, and nothing else; and it is given as many newlines as
there are such writes. -/
theorem output_has_one_line_for_each_write (sources : List String) (output : Sink)
    (input : List UInt8) (words : Random.WordSource) (depthLimit : Nat) :
    let machine := Machine.fresh output input words depthLimit
    let written := (sessionTrail sources machine).filterMap Mark.written?
    (∀ point ∈ sessionHistory sources machine, point.OneLine) ∧
      (∀ run ∈ runsOf sources machine, ∀ value after, run.1.run run.2 = .ok value after →
        value.OneLine) ∧
      (runSources sources machine).OneLine ∧
      (output.room = none →
        (runSources sources machine).output = output.append (linesOf written) ∧
        (linesOf written).toUTF8.data.toList.count Input.newline = written.length) := by
  intro machine written
  have hmachine := allowsMachine_fresh oneLine output input words depthLimit
  obtain ⟨hpoints, hruns, hafter⟩ := oneLine_runSources hmachine sources
  have honeLine (point : Point) (hpoint : point ∈ sessionHistory sources machine) :
      point.OneLine := Point.oneLine_of_allows (hpoints point hpoint)
  refine ⟨honeLine, fun run hrun _ _ hresult => (hruns run hrun).value hresult,
    Machine.oneLine_of_allows hafter, fun hroom =>
    ⟨(path_runSources sources machine).output hroom, count_newline_linesOf ?_⟩⟩
  -- What is written is the result of a point.
  intro value hvalue
  obtain ⟨mark, hmark, hwritten⟩ := List.mem_filterMap.mp hvalue
  obtain ⟨after, hresult⟩ := Mark.exists_result_of_written? hwritten
  exact (honeLine _ (mem_sessionHistory_of_mem_sessionTrail hmark)).result value after hresult

/-- A program that writes a line and then fails. -/
def Program.faltering : Program :=
  [.write (.literal 7) 1, .write (.identifier "y" 1) 1]

/-- A program that only writes a line. -/
def Program.steady : Program :=
  [.write (.literal 8) 1]

/-- Two of three writes are completed when `Program.faltering` and then `Program.steady` is
run: the second write of the first one fails. -/
theorem faltering_session_completes_two_writes :
    readSource "write(7); write(y);" = .ok .faltering ∧ readSource "write(8);" = .ok .steady ∧
      ((sessionTrail ["write(7); write(y);", "write(8);"]
        (.fresh .unlimited [] (.scripted []) 1)).filterMap Mark.written?).length = 2 := by
  have hfaltering : readSource "write(7); write(y);" = .ok .faltering := by cbv
  have hsteady : readSource "write(8);" = .ok .steady := by cbv
  have houtput : (runSources ["write(7); write(y);", "write(8);"]
      (.fresh .unlimited [] (.scripted []) 1)).output = Sink.unlimited.append "7\n8\n" := by
    rw [runSources_cons, runSource_snd hfaltering, runSources_cons, runSource_snd hsteady]
    rfl
  obtain ⟨-, -, -, hlines⟩ := output_has_one_line_for_each_write
    ["write(7); write(y);", "write(8);"] .unlimited [] (.scripted []) 1
  obtain ⟨hwritten, hcount⟩ := hlines rfl
  refine ⟨hfaltering, hsteady, ?_⟩
  -- The bytes of the output are known, and the theorem counts the writes by their newlines.
  have hsame : ByteArray.empty ++ (linesOf _).toUTF8 = ByteArray.empty ++ "7\n8\n".toUTF8 :=
    congrArg Sink.written (hwritten.symm.trans houtput)
  rw [ByteArray.empty_append, ByteArray.empty_append] at hsame
  rw [← hcount, hsame]
  rfl

end Scriptlet
