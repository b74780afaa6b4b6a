import Scriptlet.Proofs.Evaluation.Origins
import Scriptlet.Proofs.Evaluation.Trail
import Scriptlet.Proofs.InputLines

/-!
# Reads take the input line by line

Whatever a program does, its reads take the lines of the input one after the other, in the order in
which they are executed. Nothing else takes anything from the input.

* `Program.reads` are the reads that a run executes, in order.
* `Statement.execute_read` says what a read does with the next line.
* `Mark.Step.lines_input` says that only the end of a read takes a line, and `Path.lines_input`
  counts the lines that several steps take.
* `Program.input_of_read` and `Program.input_after_run` say which lines are left at a read and at
  the end of a run.
* `Program.length_lines_lt_length_reads`: where a run finds no line left, it has executed more reads
  than there were lines.
-/

namespace Scriptlet

open Evaluation

/-! ## Reads -/

/-- Whether a read is about to be executed. -/
def Point.isRead : Point → Bool
  | ⟨.statement (.read _ _), _⟩ => true
  | _ => false

/-- The reads that a run executes, in order, in whatever frames. -/
def Program.reads (program : Program) (machine : Machine) : List Point :=
  (program.history machine).filter Point.isRead

/-- The read that ends at a mark. -/
def Mark.read? : Mark → Option Point
  | .start _ => none
  | .stop point => if point.isRead then some point else none

theorem Point.isRead_iff {point : Point} :
    point.isRead ↔ ∃ name line, point.task = .statement (.read name line) := by
  constructor
  · intro h
    obtain ⟨tree | tree | ⟨function, arguments, line⟩, machine⟩ := point
    · cases h
    · rcases tree with ⟨name, e, line⟩ | ⟨e, line⟩ | ⟨name, line⟩ | ⟨name, e, line⟩ |
        ⟨name, parameters, body, line⟩ | ⟨e, line⟩
      case read => exact ⟨name, line, rfl⟩
      all_goals cases h
    · cases h
  · obtain ⟨task, machine⟩ := point
    rintro ⟨name, line, rfl⟩
    rfl

theorem Point.parts_of_isRead {point : Point} (h : point.isRead) : point.parts = [] := by
  obtain ⟨name, line, htask⟩ := isRead_iff.mp h
  obtain ⟨task, machine⟩ := point
  obtain rfl : task = _ := htask
  rfl

/-- The reads along `point.trail` are those of `point.history`: they end in the order of their
starts, as nothing happens in between. -/
theorem Point.filterMap_read?_trail (point : Point) :
    point.trail.filterMap Mark.read? = point.history.filter Point.isRead := by
  induction point using Point.parts_induction with
  | h point ih =>
    have hparts : (trails point.parts).filterMap Mark.read? =
        (point.parts.flatMap history).filter Point.isRead := by
      rw [trails, List.filterMap_flatMap, List.filter_flatMap]
      exact List.flatMap_congr ih
    rw [trail_eq, history_eq, List.filterMap_cons_none rfl, List.filterMap_append, hparts,
      List.filter_cons]
    -- A read that ends later than its parts has none.
    by_cases hread : point.isRead
    · rw [parts_of_isRead hread, if_pos hread, List.filterMap_cons, Mark.read?, if_pos hread]
      rfl
    · rw [if_neg hread, List.filterMap_cons, Mark.read?, if_neg hread, List.filterMap_nil,
        List.append_nil]

/-- The reads along the trail of a run are the `reads` of the run. -/
theorem Program.filterMap_read?_trail (program : Program) (machine : Machine) :
    (program.trail machine).filterMap Mark.read? = program.reads machine := by
  unfold trail reads history Point.trails
  rw [List.filterMap_flatMap, List.filter_flatMap]
  exact List.flatMap_congr fun point _ => point.filterMap_read?_trail

/-! ## One read -/

/-- The machine with `input` in place of its input. -/
def Machine.withInput (machine : Machine) (input : List UInt8) : Machine :=
  { machine with input := input }

@[simp]
theorem Machine.input_withInput (machine : Machine) (input : List UInt8) :
    (machine.withInput input).input = input := rfl

/-- A read takes the next of the `Input.lines`. It binds `name` to the text of the line; if
the line has none, then it binds nothing and fails, and the line is taken all the same. -/
theorem Statement.execute_read (name : String) (line : Nat) (machine : Machine) :
    (Statement.read name line).execute machine =
      let after := (machine.starting (.read name line)).withInput
        (Input.lines machine.input).tail.flatten
      match Input.answer (Input.lines machine.input).head? with
      | .ok text => .ok (.string text) (after.bind name (.string text))
      | .error error =>
        .error ⟨.transfer error, line, some (Statement.read name line).description⟩ after := by
  have hread := Input.readLine_eq machine.input
  rw [execute_apply, effect_read]
  unfold Evaluation.within
  rcases hanswer : Input.answer (Input.lines machine.input).head? with error | text <;>
    rw [hanswer] at hread
  · rw [bind_of_error (readLine_of_error (by exact hread) line)]
    rfl
  · rw [bind_of_ok (readLine_of_ok (by exact hread) line)]
    rfl

/-! ## Steps -/

theorem Machine.input_bind (machine : Machine) (name : String) (value : Value) :
    (machine.bind name value).input = machine.input := by
  obtain ⟨globals, frames, hbind⟩ := machine.exists_bind_eq name value
  rw [hbind]

theorem Statement.input_finish_read (name : String) (line : Nat) (value : Value)
    (machine : Machine) :
    (((Statement.read name line).finish value).after machine).input =
      (Input.lines machine.input).tail.flatten := by
  rw [after_finish_read, Input.readLine_eq]
  rcases Input.answer (Input.lines machine.input).head? with error | text
  · rfl
  · exact Machine.input_bind _ _ _

/-- A step takes a line from the input if `Mark.read?` is some read, and nothing otherwise. -/
theorem Mark.Step.lines_input {machine after : Machine} {mark : Mark}
    (h : mark.Step machine after) :
    Input.lines after.input = (Input.lines machine.input).drop mark.read?.toList.length := by
  have hother {tree : Statement} {start : Machine} (h : ∀ name line, tree ≠ .read name line) :
      Mark.read? (.stop ⟨.statement tree, start⟩) = none := by
    refine if_neg fun hread => ?_
    obtain ⟨name, line, htask⟩ := Point.isRead_iff.mp hread
    cases htask
    exact h name line rfl
  cases h with
  | startExpression _ _ => rfl
  | stopExpression _ _ _ => rfl
  | startStatement _ _ => rfl
  | @finish tree start _ value h =>
    by_cases hread : ∃ name line, tree = .read name line
    · obtain ⟨name, line, rfl⟩ := hread
      rw [Statement.input_finish_read, ← List.drop_one, Input.lines_flatten_drop]
      rfl
    · have hne (name : String) (line : Nat) : tree ≠ .read name line :=
        fun heq => hread ⟨name, line, heq⟩
      rw [(tree.leaves_finish value _).input hne, hother hne]
      rfl
  | @abandon tree start _ _ h =>
    -- A read has no expression that could end in a fault.
    have hne (name : String) (line : Nat) : tree ≠ .read name line := by
      rintro rfl
      cases h
    rw [hother hne]
    rfl
  | enter _ _ _ _ => rfl
  | leave _ _ _ _ _ => rfl
  | refuse _ _ _ _ => rfl
  | giveUp _ _ _ _ _ => rfl

/-- By induction on the `Path`: it takes as many lines from the input as reads end among
`marks`. -/
theorem Path.lines_input {machine after : Machine} {marks : List Mark}
    (h : Path machine marks after) :
    Input.lines after.input =
      (Input.lines machine.input).drop (marks.filterMap Mark.read?).length := by
  induction h with
  | nil machine => rfl
  | @cons before between after mark marks hstep _ ih =>
    rw [ih, hstep.lines_input, List.drop_drop, List.filterMap_cons]
    rcases mark.read? with _ | point
    · rw [Option.toList_none, List.length_nil, Nat.zero_add]
    · rw [Option.toList_some, List.length_singleton, List.length_cons, Nat.add_comm]

/-! ## Runs -/

/-- The steps of a run come to the end of the read at `count` when as many reads have ended as
were executed before it. Nothing but its start has happened to the machine since the read was
started. -/
theorem Program.exists_path_of_read {program : Program} {machine start : Machine} {count : Nat}
    {name : String} {line : Nat}
    (h : (program.reads machine)[count]? = some ⟨.statement (.read name line), start⟩) :
    ∃ marks, Path machine marks (start.starting (.read name line)) ∧
      (marks.filterMap Mark.read?).length = count := by
  obtain ⟨hlt, hpoint⟩ := List.getElem?_eq_some_iff.mp h
  have htrail := program.filterMap_read?_trail machine
  rw [← List.take_append_drop count (program.reads machine), List.drop_eq_getElem_cons hlt,
    hpoint] at htrail
  -- The trail is cut in front of the end of this read.
  obtain ⟨first, rest, hsplit, hfirst, hrest⟩ := List.filterMap_eq_append_iff.mp htrail
  obtain ⟨silent, mark, last, rfl, hsilent, hmark, -⟩ := List.filterMap_eq_cons_iff.mp hrest
  have hpath := program.path machine
  rw [hsplit, ← List.append_assoc] at hpath
  obtain ⟨between, hbefore, hafter⟩ := hpath.exists_of_append
  have hcount : ((first ++ silent).filterMap Mark.read?).length = count := by
    rw [List.filterMap_append, hfirst, List.filterMap_eq_nil_iff.mpr hsilent, List.append_nil,
      List.length_take, Nat.min_eq_left (Nat.le_of_lt hlt)]
  refine ⟨first ++ silent, ?_, hcount⟩
  obtain rfl : mark = .stop ⟨.statement (.read name line), start⟩ := by
    unfold Mark.read? at hmark
    split at hmark
    · cases hmark
    · split at hmark
      · rw [Option.some.inj hmark]
      · cases hmark
  cases hafter with
  | cons hstep _ =>
    cases hstep with
    | finish hoperand =>
      cases hoperand
      exact hbefore
    | abandon hoperand => cases hoperand

/-- The read at `count` finds the lines that the reads before it have left. -/
theorem Program.input_of_read {program : Program} {machine start : Machine} {count : Nat}
    {name : String} {line : Nat}
    (h : (program.reads machine)[count]? = some ⟨.statement (.read name line), start⟩) :
    Input.lines start.input = (Input.lines machine.input).drop count := by
  obtain ⟨marks, hpath, hcount⟩ := Program.exists_path_of_read h
  rw [← hcount]
  exact hpath.lines_input

/-- A run leaves the lines for which it has no `reads`. -/
theorem Program.input_after_run (program : Program) (machine : Machine) :
    (program.run.after machine).input =
      ((Input.lines machine.input).drop (program.reads machine).length).flatten := by
  have hlines := (program.path machine).lines_input
  rw [program.filterMap_read?_trail] at hlines
  rw [← hlines, Input.flatten_lines]

theorem Input.answer_eq_endOfInput_iff {line : Option (List UInt8)} :
    Input.answer line = .error .endOfInput ↔ line = none := by
  constructor
  · intro h
    rcases line with _ | line
    · rfl
    · unfold Input.answer Input.lineText at h
      dsimp only at h
      split at h <;> cases h
  · rintro rfl
    rfl

/-- Only a read that finds no line left raises `TransferError.endOfInput`. -/
theorem Point.Raises.read_of_endOfInput {point : Point} {fault : Fault} {after : Machine}
    (h : point.Raises fault after) (hcause : fault.cause = .transfer .endOfInput) :
    ∃ name line, point.task = .statement (.read name line) ∧
      Input.lines point.machine.input = [] := by
  cases h with
  | @read name line machine error input h =>
    cases hcause
    rw [Input.readLine_eq] at h
    have hnone := Input.answer_eq_endOfInput_iff.mp (Prod.mk.inj h).1
    exact ⟨name, line, rfl, List.head?_eq_none_iff.mp hnone⟩
  | write _ _ => cases hcause
  -- No other fault has this cause: operators and bounds have causes of their own.
  | operator _ _ h =>
    rcases BinaryOp.cause_of_apply h with h | h | h <;> cases h.symm.trans hcause
  | random _ h =>
    rcases cause_of_drawBelow h with h | ⟨n, h⟩ <;> cases h.symm.trans hcause
  | undefinedVariable _ => cases hcause
  | undefinedFunction _ => cases hcause
  | arityMismatch _ _ => cases hcause
  | depthExceeded _ => cases hcause

/-- A run that fails with `TransferError.endOfInput` has executed more reads than there were
lines. -/
theorem Program.length_lines_lt_length_reads {program : Program} {machine after : Machine}
    {fault : Fault} (h : program.run machine = .error fault after)
    (hcause : fault.cause = .transfer .endOfInput) :
    (Input.lines machine.input).length < (program.reads machine).length := by
  rcases Program.exists_raises_of_run h with
    ⟨point, hpoint, fault', after', hraises, hsurfaces⟩ | ⟨reason, -, hfault⟩
  · obtain ⟨name, line, htask, hempty⟩ :=
      hraises.read_of_endOfInput (hsurfaces.cause.symm.trans hcause)
    have hread : point ∈ program.reads machine :=
      List.mem_filter.mpr ⟨hpoint, Point.isRead_iff.mpr ⟨name, line, htask⟩⟩
    obtain ⟨count, hcount⟩ := List.mem_iff_getElem?.mp hread
    obtain ⟨task, start⟩ := point
    obtain rfl : task = _ := htask
    -- This read finds no line, although only the reads before it have taken any.
    rw [Program.input_of_read hcount, List.drop_eq_nil_iff] at hempty
    exact Nat.lt_of_le_of_lt hempty (List.getElem?_eq_some_iff.mp hcount).1
  · rw [hfault] at hcause
    cases hcause

end Scriptlet
