import Scriptlet.Proofs.Evaluation.DepthLimit
import Scriptlet.Proofs.Evaluation.Reads

/-!
# Input that is not read

A run does not depend on the input behind the last line that it reads. A run on terminated lines is
compared with the run on the same lines and something behind them: the two do the same until the
first one finds no line left.

* `extending` is the pairing of two such runs, and `simulation_extending` says that every step keeps
  to it.
* `Program.run_append_input` concludes that runs which never miss a line do the same.
* `Program.run_reads_line_by_line` is the result: each read of a run takes the next line of the
  input, and on an input that begins with the same lines the run is the same.
-/

namespace Scriptlet

open Evaluation Pairing

variable {α : Type} {rest : List UInt8}

/-! ## Lines with something behind them -/

/-- Two evaluations, on terminated lines and on the same lines with `rest` behind them. They
part when the first one finds no line left; the second one has then taken something of `rest`. -/
def extending (rest : List UInt8) : Pairing where
  together machine machine' :=
    Input.Terminated machine.input ∧ machine' = machine.withInput (machine.input ++ rest)
  relabels := (· = id)
  parted fault _ after' :=
    fault.cause = .transfer .endOfInput ∧ after'.input.length < rest.length
  onward := Continues

instance : IsPreorder Machine (extending rest).onward :=
  inferInstanceAs (IsPreorder Machine Continues)

theorem parting_extending : (extending rest).Parting where
  effect := effectBound_continues
  onward h honward := by
    obtain ⟨more, hmore⟩ := honward.input
    refine ⟨h.1, Nat.lt_of_le_of_lt ?_ h.2⟩
    rw [hmore, List.length_append]
    exact Nat.le_add_left _ _
  within _ h := h
  pop h := h

theorem Machine.withInput_bind (machine : Machine) (input : List UInt8) (name : String)
    (value : Value) :
    (machine.withInput input).bind name value = (machine.bind name value).withInput input := by
  obtain ⟨globals, frames, functions, output, unread, words, depthLimit, log⟩ := machine
  rcases frames with _ | ⟨frame, frames⟩ <;> rfl

/-- A program does not see the input: no field of `Likeness` mentions it. -/
theorem likeness_extending (rest : List UInt8) :
    Likeness (extending rest).together (extending rest).relabels where
  functions h name := by
    rw [h.2]
    exact rel_self _
  current h := by rw [h.2]; rfl
  depth h := by rw [h.2]; rfl
  record hf h event := by
    rw [h.2, hf, Event.mapLine_id]
    exact ⟨h.1, rfl⟩
  -- A binding does not look at the input, so it can be made before the input is put back.
  bind {machine _} h name value := by
    have hinput := machine.input_bind name value
    rw [h.2, machine.withInput_bind]
    exact ⟨by rw [hinput]; exact h.1, by rw [hinput]⟩
  define hf h function := by
    rw [h.2, hf, Function.mapLines_id]
    exact ⟨h.1, rfl⟩
  push h frame := by
    rw [h.2]
    exact ⟨h.1, rfl⟩
  leave _ h _ _ := by
    rw [h.2]
    exact ⟨h.1, rfl⟩

/-- The evaluation neither looks at the input nor takes anything from it. -/
def Evaluation.LeavesInput (evaluation : Evaluation α) : Prop :=
  ∀ machine input, match evaluation machine with
    | .ok value after => evaluation (machine.withInput input) = .ok value (after.withInput input) ∧
      after.input = machine.input
    | .error fault after =>
      evaluation (machine.withInput input) = .error fault (after.withInput input) ∧
        after.input = machine.input

/-- An evaluation that leaves the input alone keeps to the pairing `extending`. -/
theorem Evaluation.LeavesInput.tracks {evaluation : Evaluation α} (h : evaluation.LeavesInput)
    (hmoves : Moves Continues evaluation) : (extending rest).Tracks evaluation evaluation := by
  refine ⟨fun machine machine' ⟨hterminated, hmachine⟩ => ?_, hmoves⟩
  have hleaves := h machine (machine.input ++ rest)
  rw [hmachine]
  rcases hresult : evaluation machine with ⟨value, after⟩ | ⟨fault, after⟩ <;>
    rw [hresult] at hleaves <;> obtain ⟨hsame, hinput⟩ := hleaves <;> rw [hsame, ← hinput]
  · exact ⟨rfl, by rwa [hinput], rfl⟩
  · exact .inl ⟨⟨id, rfl, rfl⟩, by rwa [hinput], rfl⟩

theorem leavesInput_writeValue (value : Value) (line : Nat) :
    (writeValue value line).LeavesInput := by
  intro machine input
  rcases h : machine.output.writeLine value with ⟨output, _ | reason⟩
  · rw [writeValue_of_taken h]
    exact ⟨writeValue_of_taken (by exact h) line, rfl⟩
  · rw [writeValue_of_refused h]
    exact ⟨writeValue_of_refused (by exact h) line, rfl⟩

theorem leavesInput_drawBelow (bound : Value) (line : Nat) :
    (drawBelow bound line).LeavesInput := by
  intro machine input
  rcases nonneg_or_drawBelow_eq_fail bound with ⟨n, hn, rfl⟩ | ⟨cause, hfail⟩
  · rw [drawBelow_of_nonneg hn]
    exact ⟨drawBelow_of_nonneg hn line _, rfl⟩
  · rw [hfail]
    exact ⟨rfl, rfl⟩

theorem leavesInput_flush : flush.LeavesInput := by
  intro machine input
  have hflush : (machine.withInput input).output.flushRefusal = machine.output.flushRefusal := rfl
  rcases hrefusal : machine.output.flushRefusal with _ | reason <;> rw [hrefusal] at hflush
  · rw [flush_of_not_refused hrefusal]
    exact ⟨flush_of_not_refused hflush, rfl⟩
  · rw [flush_of_refused hrefusal]
    exact ⟨flush_of_refused hflush, rfl⟩

/-- Both evaluations read the same line, or the first one finds none and the second one reads
from `rest`. This is the only step at which the two can part. -/
theorem tracks_readLine_extending (line : Nat) :
    (extending rest).Tracks (readLine line) (readLine line) := by
  refine ⟨fun machine machine' ⟨hterminated, hmachine⟩ => ?_,
    effectBound_continues.moves_readLine line⟩
  rw [hmachine]
  by_cases hinput : machine.input = []
  · have hnone : Input.readLine machine.input = (.error .endOfInput, []) := by rw [hinput]; rfl
    have hbehind : (machine.withInput (machine.input ++ rest)).input = rest := by
      rw [hinput]
      rfl
    rw [readLine_of_error hnone]
    by_cases hrest : rest = []
    · have hnone' : Input.readLine (machine.withInput (machine.input ++ rest)).input =
          (.error .endOfInput, []) := by
        rw [hbehind, hrest]
        rfl
      rw [readLine_of_error hnone']
      refine .inl ⟨⟨id, rfl, rfl⟩, List.forall_mem_nil _, ?_⟩
      rw [hrest]
      rfl
    · -- The first evaluation ends here; the second one takes something of the rest.
      have hshorter := Input.length_readLine_lt hrest
      rcases hread : Input.readLine rest with ⟨error | text, input⟩ <;>
        rw [hread] at hshorter <;> rw [← hbehind] at hread
      · rw [readLine_of_error hread]
        exact .inr ⟨rfl, hshorter⟩
      · rw [readLine_of_ok hread]
        exact ⟨rfl, hshorter⟩
  -- The line that is read is complete, so what comes behind it makes no difference.
  · have hsame := hterminated.readLine_append hinput rest
    have hleft := hterminated.readLine
    rcases hread : Input.readLine machine.input with ⟨error | text, input⟩ <;>
      rw [hread] at hsame hleft
    · rw [readLine_of_error hread, readLine_of_error (by exact hsame)]
      exact .inl ⟨⟨id, rfl, rfl⟩, hleft, rfl⟩
    · rw [readLine_of_ok hread, readLine_of_ok (by exact hsame)]
      exact ⟨rfl, hleft, rfl⟩

theorem simulation_extending : Simulation (extending rest) 0 where
  toParting := parting_extending
  toLikeness := likeness_extending rest
  write hf value line := by
    rw [hf, id]
    exact (leavesInput_writeValue value line).tracks
      (effectBound_continues.moves_writeValue value line)
  read hf line := by
    rw [hf, id]
    exact tracks_readLine_extending line
  draw hf bound line := by
    rw [hf, id]
    exact (leavesInput_drawBelow bound line).tracks
      (effectBound_continues.moves_drawBelow bound line)
  exhausted hf hg function arguments line := by
    rw [hf, hg, id, Function.mapLines_id]
    have hleaves : (Function.invoke 0 function arguments line).LeavesInput :=
      fun machine input => ⟨rfl, rfl⟩
    exact hleaves.tracks (effectBound_continues.moves_invoke 0 function arguments line)

/-- Runs keep to the pairing `extending`. -/
theorem agree_run_extending {machine : Machine} (h : Input.Terminated machine.input)
    (rest : List UInt8) (program : Program) :
    (extending rest).Agree (program.run machine)
      (program.run (machine.withInput (machine.input ++ rest))) := by
  have hmoves : Moves Continues flush := fun machine => by
    rw [after_flush]
    exact refl_of Continues machine
  have hsimulation : Simulation (extending rest) 0 := simulation_extending
  have hagree :=
    hsimulation.agree_run rfl (leavesInput_flush.tracks hmoves) program ⟨h, rfl⟩ rfl
  rwa [Program.mapLines_id] at hagree

/-! ## Runs -/

/-- The same result with `f` applied to the machine. -/
def mapMachine (f : Machine → Machine) :
    EStateM.Result Fault Machine α → EStateM.Result Fault Machine α
  | .ok value after => .ok value (f after)
  | .error fault after => .error fault (f after)

/-- A run on terminated lines that finds a line for each of its reads is the same when `rest`
follows these lines. -/
theorem Program.run_append_input {program : Program} {machine : Machine}
    (h : Input.Terminated machine.input)
    (hfound : ∀ fault after, program.run machine = .error fault after →
      fault.cause ≠ .transfer .endOfInput) (rest : List UInt8) :
    program.run (machine.withInput (machine.input ++ rest)) =
      mapMachine (fun after => after.withInput (after.input ++ rest)) (program.run machine) := by
  have hagree := agree_run_extending h rest program
  rcases hrun : program.run machine with ⟨value, after⟩ | ⟨fault, after⟩ <;>
    rcases hrun' : program.run (machine.withInput (machine.input ++ rest)) with
      ⟨value', after'⟩ | ⟨fault', after'⟩ <;> rw [hrun, hrun'] at hagree
  · obtain ⟨rfl, -, rfl⟩ := hagree
    rfl
  · exact hagree.elim
  -- The runs would have parted only where the first one finds no line, which `hfound` excludes.
  · exact absurd hagree.1 (hfound fault after hrun)
  · rcases hagree with ⟨⟨f, rfl, rfl⟩, -, rfl⟩ | hparted
    · rfl
    · exact absurd hparted.1 (hfound fault after hrun)

/-- If a run executes no more `reads` than there are terminated lines in front of its input,
then the run on these lines alone finds a line for each of its reads. -/
theorem Program.finds_lines_of_length_reads_le {program : Program} {machine : Machine}
    {rest : List UInt8} (h : Input.Terminated machine.input)
    (hreads : (program.reads (machine.withInput (machine.input ++ rest))).length ≤
      (Input.lines machine.input).length) :
    ∀ fault after, program.run machine = .error fault after →
      fault.cause ≠ .transfer .endOfInput := by
  intro fault after hrun hcause
  have hagree := agree_run_extending h rest program
  have hlines : Input.lines (machine.input ++ rest) =
      Input.lines machine.input ++ Input.lines rest := h.lines_append rest
  -- The run with the rest has taken nothing but terminated lines.
  have hinput := program.input_after_run (machine.withInput (machine.input ++ rest))
  rw [Machine.input_withInput, hlines, List.drop_append_of_le_length hreads, List.flatten_append,
    Input.flatten_lines] at hinput
  have hparted {after' : Machine}
      (hafter' : program.run.after (machine.withInput (machine.input ++ rest)) = after')
      (hshorter : after'.input.length < rest.length) : False := by
    rw [← hafter', hinput, List.length_append] at hshorter
    omega
  rw [hrun] at hagree
  rcases hrun' : program.run (machine.withInput (machine.input ++ rest)) with
    ⟨value', after'⟩ | ⟨fault', after'⟩ <;> rw [hrun'] at hagree
  · exact hparted (after_of_ok hrun') hagree.2
  · rcases hagree with ⟨⟨f, rfl, rfl⟩, -⟩ | hagree
    · -- A run that fails at the end of its input has more reads than this.
      have hmore := Program.length_lines_lt_length_reads hrun' hcause
      rw [Machine.input_withInput, hlines, List.length_append] at hmore
      omega
    · exact hparted (after_of_error hrun') hagree.2

/-- A run that executes no more `reads` than there are terminated lines in front of its input
is the same whatever follows these lines, and it leaves that behind. -/
theorem Program.run_append_input_congr (program : Program) {machine : Machine}
    (h : Input.Terminated machine.input) (rest : List UInt8)
    (hreads : (program.reads (machine.withInput (machine.input ++ rest))).length ≤
      (Input.lines machine.input).length) (rest' : List UInt8) :
    program.run (machine.withInput (machine.input ++ rest')) =
      mapMachine (fun after => after.withInput
        ((Input.lines (machine.input ++ rest')).drop
          (program.reads (machine.withInput (machine.input ++ rest))).length).flatten)
        (program.run (machine.withInput (machine.input ++ rest))) := by
  have hfound := Program.finds_lines_of_length_reads_le h hreads
  have hinput := program.input_after_run (machine.withInput (machine.input ++ rest))
  -- Both runs do what the run on the terminated lines alone does.
  rw [Machine.input_withInput, h.lines_append, List.drop_append_of_le_length hreads,
    List.flatten_append, Input.flatten_lines] at hinput
  rw [h.lines_append, List.drop_append_of_le_length hreads, List.flatten_append,
    Input.flatten_lines, Program.run_append_input h hfound rest']
  unfold Evaluation.after at hinput
  rw [Program.run_append_input h hfound rest] at hinput ⊢
  rcases hbase : program.run machine with ⟨value, after⟩ | ⟨fault, after⟩ <;>
    · rw [hbase] at hinput
      have hleft : after.input ++ rest = _ := hinput
      rw [← List.append_cancel_right hleft]
      rfl

/-- Two inputs that begin with the same `count` lines are the same input, or these lines are
terminated. -/
theorem Input.eq_or_complete_of_take_eq {input input' : List UInt8} {count : Nat}
    (h : (lines input').take count = (lines input).take count) :
    input' = input ∨
      (∀ line ∈ (lines input).take count, Complete line) ∧
        ((lines input).take count).length = count := by
  have hsplit := List.take_append_drop count (lines input)
  have hsplit' := List.take_append_drop count (lines input')
  rw [h] at hsplit'
  -- Lines are terminated if one of the inputs goes on behind them.
  have hgoes {cut : List (List UInt8)} (hcut : IsCut cut) (hdrop : cut.drop count ≠ []) :
      (∀ line ∈ cut.take count, Complete line) ∧ (cut.take count).length = count := by
    rw [← List.take_append_drop count cut] at hcut
    refine ⟨hcut.complete_of_append hdrop, ?_⟩
    rw [List.length_take, Nat.min_eq_left]
    exact Nat.le_of_lt (Nat.lt_of_not_le (mt List.drop_eq_nil_iff.mpr hdrop))
  by_cases hdrop : (lines input).drop count = []
  · by_cases hdrop' : (lines input').drop count = []
    · left
      rw [← flatten_lines input', ← flatten_lines input, ← hsplit, ← hsplit', hdrop, hdrop']
    · rw [← h]
      exact .inr (hgoes (isCut_lines input') hdrop')
  · exact .inr (hgoes (isCut_lines input) hdrop)

/-- On an input that begins with the same `count` lines, a run that executes no more reads
than that is the same, and it leaves what is left of the other input. -/
theorem Program.run_withInput {program : Program} {machine : Machine} {input : List UInt8}
    {count : Nat}
    (h : (Input.lines input).take count = (Input.lines machine.input).take count)
    (hreads : (program.reads machine).length ≤ count) :
    program.run (machine.withInput input) =
      mapMachine (fun after => after.withInput
        ((Input.lines input).drop (program.reads machine).length).flatten)
          (program.run machine) := by
  rcases Input.eq_or_complete_of_take_eq h with rfl | ⟨hcomplete, hcount⟩
  · -- The inputs are the same, and so is what the runs leave of them.
    rw [← program.input_after_run machine]
    show program.run machine = _
    unfold Evaluation.after
    rcases program.run machine with ⟨value, after⟩ | ⟨fault, after⟩ <;> rfl
  · generalize hfirst : (Input.lines machine.input).take count = first at h hcomplete hcount
    -- Both inputs are the same complete lines, with something else behind them.
    have hlines := Input.lines_flatten_of_complete hcomplete
    have hterminated : Input.Terminated (machine.withInput first.flatten).input := by
      unfold Input.Terminated
      rwa [Machine.input_withInput, hlines]
    have hsplit {whole : List UInt8} (hwhole : (Input.lines whole).take count = first) :
        first.flatten ++ ((Input.lines whole).drop count).flatten = whole := by
      rw [← hwhole, ← List.flatten_append, List.take_append_drop, Input.flatten_lines]
    have hmachine : (machine.withInput first.flatten).withInput
        ((machine.withInput first.flatten).input ++
          ((Input.lines machine.input).drop count).flatten) = machine := by
      rw [Machine.input_withInput, hsplit hfirst]
      rfl
    have hcongr := program.run_append_input_congr hterminated
      ((Input.lines machine.input).drop count).flatten
    rw [hmachine, Machine.input_withInput, hlines, hcount] at hcongr
    have hsame := hcongr hreads ((Input.lines input).drop count).flatten
    rw [hsplit h] at hsame
    exact hsame

/-- **Reads take the input line by line and do not depend on what is left of it.** The read at
`count` among `program.reads machine`, counted in the order in which they are executed and in
whatever frames, takes line `count` of the input, gives and binds its text, or fails without
binding anything if the line is no text or if there is none. Nothing else takes anything from
the input. On every `input` that begins with the same lines, a run that executes no more reads
than there are such lines gives the same value or the same fault, and the machines after the
two runs differ in what is left of their inputs only. -/
theorem Program.run_reads_line_by_line (program : Program) (machine : Machine) :
    (∀ count name line start,
      (program.reads machine)[count]? = some ⟨.statement (.read name line), start⟩ →
      start.input = ((Input.lines machine.input).drop count).flatten ∧
      (Statement.read name line).execute start =
        let after := (start.starting (.read name line)).withInput
          ((Input.lines machine.input).drop (count + 1)).flatten
        match Input.answer (Input.lines machine.input)[count]? with
        | .ok text => .ok (.string text) (after.bind name (.string text))
        | .error error =>
          .error ⟨.transfer error, line, some (Statement.read name line).description⟩ after) ∧
      (program.run.after machine).input =
        ((Input.lines machine.input).drop (program.reads machine).length).flatten ∧
      ∀ input count, (Input.lines input).take count = (Input.lines machine.input).take count →
        (program.reads machine).length ≤ count →
        program.run (machine.withInput input) =
          mapMachine (fun after => after.withInput
            ((Input.lines input).drop (program.reads machine).length).flatten)
            (program.run machine) := by
  refine ⟨fun count name line start h => ?_, program.input_after_run machine,
    fun input count h hreads => Program.run_withInput h hreads⟩
  have hlines := Program.input_of_read h
  refine ⟨by rw [← hlines, Input.flatten_lines], ?_⟩
  have hexecute := Statement.execute_read name line start
  rw [hlines, List.head?_drop, List.tail_drop] at hexecute
  exact hexecute

/-- A program that reads two lines, the first one in a function. -/
def Program.asking : Program :=
  [.define "ask" [] [.read "x" 1] 1, .evaluate (.call "ask" [] 2) 2, .read "y" 3]

/-- A machine with three lines to be read. The second one has two carriage returns at its end. -/
def Machine.threeLines : Machine :=
  .fresh .unlimited "one\r\ntwo\r\r\nthree".toUTF8.data.toList (.scripted []) 1

/-- The second read of `Program.asking` takes the second line of `Machine.threeLines` and
leaves one of its carriage returns in the text, and the run is the same if the third line is
another one. -/
theorem asking_reads_two_of_three_lines :
    (Program.asking.reads .threeLines).length = 2 ∧
      (∃ name line start after,
        (Program.asking.reads .threeLines)[1]? = some ⟨.statement (.read name line), start⟩ ∧
        (Statement.read name line).execute start = .ok (.string "two\r") after) ∧
      Program.asking.run
          (Machine.threeLines.withInput "one\r\ntwo\r\r\nfour\n".toUTF8.data.toList) =
        mapMachine (fun after => after.withInput "four\n".toUTF8.data.toList)
          (Program.asking.run .threeLines) := by
  obtain ⟨hreads, hinput, hunread⟩ := Program.asking.run_reads_line_by_line .threeLines
  have hlines : Input.lines Machine.threeLines.input =
      ["one\r\n".toUTF8.data.toList, "two\r\r\n".toUTF8.data.toList,
        "three".toUTF8.data.toList] := rfl
  have hafter : (Program.asking.run.after .threeLines).input = "three".toUTF8.data.toList := rfl
  rw [hlines, hafter] at hinput
  -- What is left of the input tells how many reads there were.
  have hlength : (Program.asking.reads .threeLines).length = 2 := by
    rcases hcount : (Program.asking.reads .threeLines).length with _ | _ | _ | count <;>
      rw [hcount] at hinput
    · exact absurd hinput (by decide)
    · exact absurd hinput (by decide)
    · rw [List.drop_eq_nil_of_le (by exact Nat.le_add_left 3 count)] at hinput
      exact absurd hinput (by decide)
  have hsame := hunread "one\r\ntwo\r\r\nfour\n".toUTF8.data.toList 2 rfl (Nat.le_of_eq hlength)
  rw [hlength] at hsame
  refine ⟨hlength, ?_, hsame⟩
  obtain ⟨point, hpoint⟩ : ∃ point, (Program.asking.reads .threeLines)[1]? = some point :=
    ⟨_, List.getElem?_eq_getElem (by rw [hlength]; exact Nat.one_lt_two)⟩
  obtain ⟨name, line, htask⟩ :=
    Point.isRead_iff.mp (List.mem_filter.mp (List.mem_of_getElem? hpoint)).2
  obtain ⟨task, start⟩ := point
  obtain rfl : task = _ := htask
  exact ⟨name, line, start, _, hpoint, (hreads 1 name line start hpoint).2⟩

end Scriptlet
