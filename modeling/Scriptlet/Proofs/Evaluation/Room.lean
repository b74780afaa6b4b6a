import Scriptlet.Proofs.Evaluation.Blame
import Scriptlet.Proofs.Evaluation.DepthLimit
import Scriptlet.Proofs.Evaluation.Sequencing
import Scriptlet.Proofs.Evaluation.Setting

/-!
# An output that fills up

A run on an output with room for so many bytes only does what the run on an output without end does,
up to the write that goes beyond the room. This write is cut off where the room ends, and with it
the run.

* `Machine.withRoom` is a machine whose output has another room.
* `unlimiting` is the setting without end, and `filling` is the pairing of a run with the one under
  this setting; `simulation_filling` says that every step keeps to it.
* `Program.ReachesWrite` says that a run comes to a write whose value has been evaluated.
* `Program.exists_reachesWrite_of_run`: a run in which a line is refused ends at such a write.
* `Program.run_withRoom` is the result.
-/

namespace Scriptlet

open Evaluation Pairing

/-! ## Room -/

/-- The sink with `room` for so many more bytes; without a number there is no end. -/
def Sink.withRoom (sink : Sink) (room : Option Nat) : Sink :=
  { sink with room := room }

/-- The machine with `room` in its output for so many more bytes. -/
def Machine.withRoom (machine : Machine) (room : Option Nat) : Machine :=
  { machine with output := machine.output.withRoom room }

theorem Sink.writeLine_of_size_le {sink : Sink} {room : Nat} {value : Value}
    (h : sink.room = some room) (hsize : (value.text ++ "\n").toUTF8.size ≤ room) :
    sink.writeLine value =
      ({ sink with
          written := sink.written ++ (value.text ++ "\n").toUTF8
          room := some (room - (value.text ++ "\n").toUTF8.size) }, none) := by
  unfold writeLine
  rw [h]
  exact if_pos hsize

/-- A line that is larger than `room` is cut off where the room ends. -/
theorem Sink.written_writeLine_of_lt_size {sink : Sink} {room : Nat} {value : Value}
    (h : sink.room = some room) (hsize : room < (value.text ++ "\n").toUTF8.size) :
    ∃ output, sink.writeLine value = (output, some sink.refusal) ∧
      output.written = sink.written ++ (value.text ++ "\n").toUTF8.extract 0 room := by
  unfold writeLine
  rw [h]
  dsimp only
  rw [if_neg (Nat.not_le.mpr hsize)]
  exact ⟨_, rfl, rfl⟩

theorem extract_append_of_le {bytes more : ByteArray} {size : Nat} (h : size ≤ bytes.size) :
    (bytes ++ more).extract 0 size = bytes.extract 0 size := by
  rw [ByteArray.extract_append, Nat.sub_eq_zero_of_le h, Nat.zero_sub, ByteArray.extract_same,
    ByteArray.append_empty]

theorem extract_append_add (bytes more : ByteArray) (size : Nat) :
    (bytes ++ more).extract 0 (bytes.size + size) = bytes ++ more.extract 0 size := by
  have hmore := @ByteArray.extract_append_size_add bytes more 0 size
  rw [Nat.add_zero] at hmore
  rw [ByteArray.extract_eq_extract_append_extract bytes.size (Nat.zero_le _)
    (Nat.le_add_right _ _), ByteArray.extract_append_eq_left rfl, hmore]

/-! ## With and without an end -/

/-- The sink takes `total` bytes, has taken some of them and has room for the others. It can
be flushed, and it refuses in the words `refusal`. -/
structure Sink.Fills (total : Nat) (refusal : String) (sink : Sink) : Prop where
  room : ∃ room, sink.room = some room ∧ sink.written.size + room = total
  refusal : sink.refusal = refusal
  flush : sink.flushRefusal = none

variable {total : Nat} {refusal : String}

/-- The setting in which an output that fills up has no end any more. -/
def unlimiting (total : Nat) (refusal : String) : Setting where
  output sink := sink.withRoom none
  depthLimit := id
  proper sink _ := sink.Fills total refusal

/-- A line was refused, and the output without end of `after'` has been given more. It begins
with what the output of `after` has taken. -/
structure Overflows (total : Nat) (refusal : String) (fault : Fault) (after after' : Machine) :
    Prop where
  cause : fault.cause = .transfer (.refused refusal)
  size : total < after'.output.written.size
  written : after.output.written = after'.output.written.extract 0 total

/-- Two evaluations, on an output that `Fills` up and on one without end. They part when a
line is refused, and then the machines are related by `Overflows`. -/
def filling (total : Nat) (refusal : String) : Pairing :=
  (unlimiting total refusal).pairing (Overflows total refusal) Continues

instance : IsPreorder Machine (filling total refusal).onward :=
  inferInstanceAs (IsPreorder Machine Continues)

theorem parting_filling : (filling total refusal).Parting where
  effect := effectBound_continues
  onward h honward := by
    obtain ⟨more, hmore⟩ := honward.output
    refine ⟨h.cause, ?_, ?_⟩
    · rw [hmore, ByteArray.size_append]
      exact Nat.lt_add_right _ h.size
    · rw [hmore, extract_append_of_le (Nat.le_of_lt h.size)]
      exact h.written
  within _ h := ⟨h.cause, h.size, h.written⟩
  pop h := ⟨h.cause, h.size, h.written⟩

/-- A line is taken on both sides, or the first evaluation ends here and the second one
`Overflows`. This is the only step at which the two can part. -/
theorem tracks_writeValue_filling (value : Value) (line : Nat) :
    (filling total refusal).Tracks (writeValue value line) (writeValue value line) := by
  refine ⟨fun machine machine' ⟨hfills, hmachine⟩ => ?_,
    effectBound_continues.moves_writeValue value line⟩
  obtain ⟨⟨room, hroom, htotal⟩, hrefusal, hflush⟩ := hfills
  have hunlimited : writeValue value line (machine.withRoom none) =
      .ok () (Machine.withRoom { machine with output := { machine.output with
        written := machine.output.written ++ (value.text ++ "\n").toUTF8 } } none) :=
    writeValue_of_taken (Sink.writeLine_of_room_eq_none rfl value) line
  have hsame : machine' = machine.withRoom none := hmachine
  rw [hsame, hunlimited]
  -- Only a line for which there is no room tells the two outputs apart.
  rcases Nat.lt_or_ge room (value.text ++ "\n").toUTF8.size with hsize | hsize
  · obtain ⟨output, hwritten, hcut⟩ := Sink.written_writeLine_of_lt_size hroom hsize
    rw [writeValue_of_refused hwritten]
    refine ⟨congrArg (fun reason => Fault.Cause.transfer (.refused reason)) hrefusal, ?_, ?_⟩
    · show total < (machine.output.written ++ _).size
      rw [ByteArray.size_append]
      omega
    · show output.written = (machine.output.written ++ _).extract 0 total
      rw [hcut, ← htotal, extract_append_add]
  · rw [writeValue_of_taken (Sink.writeLine_of_size_le hroom hsize)]
    refine ⟨rfl, ⟨⟨_, rfl, ?_⟩, hrefusal, hflush⟩, rfl⟩
    rw [ByteArray.size_append]
    omega

theorem simulation_filling : Simulation (filling total refusal) 0 where
  toParting := parting_filling
  toLikeness := (unlimiting total refusal).likeness
  write hf value line := by
    rw [hf, id]
    exact tracks_writeValue_filling value line
  read hf line := by
    rw [hf, id]
    exact ((unlimiting total refusal).commutes_readLine line).tracks
      (effectBound_continues.moves_readLine line)
  draw hf bound line := by
    rw [hf, id]
    exact ((unlimiting total refusal).commutes_drawBelow bound line).tracks
      (effectBound_continues.moves_drawBelow bound line)
  exhausted hf hg function arguments line := by
    rw [hf, hg, id, Function.mapLines_id]
    have hcommutes : (unlimiting total refusal).Commutes
        (Function.invoke 0 function arguments line) := fun machine => ⟨rfl, id⟩
    exact hcommutes.tracks (effectBound_continues.moves_invoke 0 function arguments line)

/-- Runs keep to the pairing `filling`. -/
theorem agree_run_filling {machine : Machine} (h : machine.output.Fills total refusal)
    (program : Program) :
    (filling total refusal).Agree (program.run machine) (program.run (machine.withRoom none)) :=
  Setting.agree_run simulation_filling (fun _ => rfl) h rfl program

/-! ## Refused lines -/

/-- A run comes to a write at `line`: its `value` has been evaluated, and what is left is to
hand the text to the output of `between`. -/
def Program.ReachesWrite (program : Program) (machine : Machine) (line : Nat) (value : Value)
    (between : Machine) : Prop :=
  ∃ operand start, ⟨.statement (.write operand line), start⟩ ∈ program.history machine ∧
    operand.evaluate (start.starting (.write operand line)) = .ok value between

theorem Input.readLine_ne_refused {input rest : List UInt8} {reason : String} :
    Input.readLine input ≠ (.error (.refused reason), rest) := by
  unfold Input.readLine
  split
  · simp
  · dsimp only
    split <;> simp

/-- The cause `.refused` belongs to a `.write` whose `value` has been evaluated, and to no
other point. -/
theorem Point.Raises.write_of_refused {point : Point} {fault : Fault} {after : Machine}
    {reason : String} (h : point.Raises fault after)
    (hcause : fault.cause = .transfer (.refused reason)) :
    ∃ operand value between output, point.task = .statement (.write operand fault.line) ∧
      operand.evaluate (point.machine.starting (.write operand fault.line)) = .ok value between ∧
      between.output.writeLine value = (output, some reason) ∧
      after = { between with output := output } := by
  cases h with
  | write hoperand h =>
    cases hcause
    exact ⟨_, _, _, _, rfl, hoperand, h, rfl⟩
  -- No other fault has this cause: a read is never refused, and the others have causes of their
  -- own.
  | read h =>
    cases hcause
    exact absurd h Input.readLine_ne_refused
  | operator _ _ h =>
    rcases BinaryOp.cause_of_apply h with h | h | h <;> cases h.symm.trans hcause
  | random _ h =>
    rcases cause_of_drawBelow h with h | ⟨n, h⟩ <;> cases h.symm.trans hcause
  | undefinedVariable _ => cases hcause
  | undefinedFunction _ => cases hcause
  | arityMismatch _ _ => cases hcause
  | depthExceeded _ => cases hcause

theorem Program.mem_history_of_inside {program : Program} {machine : Machine}
    {point culprit : Point} (hpoint : point ∈ program.history machine)
    (h : point.Inside culprit) : culprit ∈ program.history machine := by
  induction h with
  | refl => exact hpoint
  | tail _ hstep ih => exact Program.mem_history_iff.mpr (.inr ⟨_, ih, hstep.1⟩)

/-- A run in which a line is refused ends at the write of this line. Nothing has happened
since `between`, where the value was evaluated, except that the output has taken what it could
and that the frames of the active calls have been dropped. -/
theorem Program.exists_reachesWrite_of_run {program : Program} {machine after : Machine}
    {fault : Fault} {reason : String} (hflush : machine.output.flushRefusal = none)
    (h : program.run machine = .error fault after)
    (hcause : fault.cause = .transfer (.refused reason)) :
    ∃ line value between output, program.ReachesWrite machine line value between ∧
      between.output.writeLine value = (output, some reason) ∧
      fault = ⟨.transfer (.refused reason), line, some "write"⟩ ∧
      after = { between with frames := after.frames, output := output } := by
  rcases (Program.exists_blames_of_run program (.read "" 0) machine).1 fault after h with
    ⟨_, _, hexecute, hrefusal, -⟩ | ⟨point, hpoint, tree, hblames, -⟩
  · -- The flush is not refused, for it would not have been refused before.
    rw [flushRefusal_of_execute hexecute hflush] at hrefusal
    cases hrefusal
  · obtain ⟨culprit, raised, left, hinside, hraises, hsurfaces⟩ := hblames.inside
    obtain ⟨operand, value, between, output, htask, hoperand, hwritten, rfl⟩ :=
      hraises.write_of_refused (hsurfaces.cause.symm.trans hcause)
    -- The culprit is the write itself, so it is the statement that is blamed.
    have howns := hinside.owns hblames.task
    rw [htask] at howns
    obtain rfl : Statement.write operand raised.line = tree := howns
    refine ⟨raised.line, value, between, output, ⟨operand, culprit.machine, ?_, hoperand⟩, hwritten,
      ?_, hsurfaces.machine⟩
    · rw [← htask]
      exact Program.mem_history_of_inside hpoint hinside
    · obtain ⟨cause, line, statement⟩ := fault
      obtain rfl : cause = _ := hcause
      obtain rfl : line = raised.line := hsurfaces.line
      obtain rfl : statement = _ := hblames.statement
      rfl

/-! ## Runs -/

/-- What a run on an output that `Fills` up comes to, the run on the output without end comes
to as well. -/
theorem Program.ReachesWrite.unlimited {program : Program} {machine between : Machine} {line : Nat}
    {value : Value} (h : program.ReachesWrite machine line value between)
    (hfills : machine.output.Fills total refusal) :
    program.ReachesWrite (machine.withRoom none) line value (between.withRoom none) ∧
      between.output.Fills total refusal := by
  obtain ⟨operand, start, hstart, hoperand⟩ := h
  have hcarries : (unlimiting total refusal).Carries := simulation_filling.carries fun _ => rfl
  obtain ⟨hstart', hproper⟩ := hcarries.mem_history hfills _ hstart
  obtain ⟨hoperand', hbetween⟩ := hcarries.perform (.expression operand)
    (start.starting (.write operand line)) value between hproper hoperand
  exact ⟨⟨operand, start.withRoom none, hstart', hoperand'⟩, hbetween⟩

/-- When `bytes` have been taken, there was room for them, and the room that is left is the
one that they have not taken. -/
theorem Sink.Fills.eq_withRoom {machine after : Machine} {room : Nat} {bytes : ByteArray}
    (h : after.output.Fills (machine.output.written.size + room) refusal)
    (hbytes : (after.withRoom none).output.written = machine.output.written ++ bytes) :
    bytes.size ≤ room ∧ after = (after.withRoom none).withRoom (some (room - bytes.size)) := by
  obtain ⟨left, hleft, htotal⟩ := h.room
  have hsize : after.output.written.size = machine.output.written.size + bytes.size := by
    rw [← ByteArray.size_append, ← hbytes]
    rfl
  have hroom : left = room - bytes.size := by omega
  refine ⟨by omega, ?_⟩
  -- All other fields are those of `after`; the room that is left is the only one to compare.
  obtain ⟨globals, frames, functions, ⟨written, outputRoom, lineBuffer, said, flushRefusal⟩, input,
    words, depthLimit, log⟩ := after
  obtain rfl : outputRoom = some left := hleft
  rw [hroom]
  rfl

/-- The run of `program` on `machine`, whose output has `room` left, ends in the middle of the
write of `value` at `line`. Here `bytes` are what the run writes on the output without end,
`between` is the machine of that run at the write, and `after` is what the run that is cut off
leaves. -/
structure Program.CutOff (program : Program) (machine : Machine) (room : Nat) (bytes : ByteArray)
    (line : Nat) (value : Value) (between after : Machine) : Prop where
  /-- The run on the output without end comes to this write, with the machine `between`. -/
  reaches : program.ReachesWrite (machine.withRoom none) line value between
  /-- There is room for everything that `between` has written before the line. -/
  fits : between.output.written.size ≤ machine.output.written.size + room
  /-- There is no `room` for the whole line behind it. -/
  crosses : machine.output.written.size + room <
    (between.output.written ++ (value.text ++ "\n").toUTF8).size
  run : program.run machine =
    .error ⟨.transfer (.refused machine.output.refusal), line, some "write"⟩ after
  /-- The first `room` bytes have been taken, and no other ones. -/
  written : after.output.written = machine.output.written ++ bytes.extract 0 room
  /-- Nothing else has happened since `between`, where the value of the write was evaluated,
  except that the frames of the active calls have been dropped. -/
  state : after = { between with frames := after.frames, output := after.output }
  depth : after.depth = machine.depth

/-- Where the runs have parted by `Overflows`, the one on the output that fills up has been
`CutOff`. -/
theorem Overflows.exists_cutOff {program : Program} {machine after after' : Machine} {room : Nat}
    {bytes : ByteArray} {fault : Fault} (hroom : machine.output.room = some room)
    (hflush : machine.output.flushRefusal = none)
    (h : Overflows (machine.output.written.size + room) machine.output.refusal fault after after')
    (hrun : program.run machine = .error fault after)
    (hbytes : after'.output.written = machine.output.written ++ bytes) :
    ∃ line value between, program.CutOff machine room bytes line value between after := by
  -- Both runs come to the same write, one with the room that is left and one without end.
  have hfills : machine.output.Fills (machine.output.written.size + room) machine.output.refusal :=
    ⟨⟨room, hroom, rfl⟩, rfl, hflush⟩
  obtain ⟨line, value, between, output, hreaches, hwritten, hfault, hafter⟩ :=
    Program.exists_reachesWrite_of_run hflush hrun h.cause
  obtain ⟨hreaches', hbetween⟩ := hreaches.unlimited hfills
  obtain ⟨left, hleft, htotal⟩ := hbetween.room
  have houtput : after.output = output := congrArg Machine.output hafter
  have hextent := effectBound_sameExtent.moves_run program machine
  rw [after_of_error hrun] at hextent
  refine ⟨line, value, between.withRoom none, hreaches', ?_, ?_, ?_, ?_, ?_, hextent.depth⟩
  · exact Nat.le.intro htotal
  · -- A line that fits is not refused.
    rw [ByteArray.size_append, ← htotal]
    refine Nat.add_lt_add_left (Nat.lt_of_not_le fun hsize => ?_) _
    rw [Sink.writeLine_of_size_le hleft hsize] at hwritten
    cases hwritten
  · rw [hrun, hfault]
  · rw [h.written, hbytes, extract_append_add]
  · rw [houtput]
    exact hafter

/-- **An output that fills up only truncates the run.** Let the run of `program` on
`machine.withRoom none` write `bytes`. If there is room for them, then the run on `machine`
gives the same value or the same fault, and the machines after the two runs differ in the room
that is left only. If there is not, then this run is `CutOff` at the write that goes beyond
the room. -/
theorem Program.run_withRoom {machine : Machine} {room : Nat}
    (hroom : machine.output.room = some room) (hflush : machine.output.flushRefusal = none)
    (program : Program) :
    ∃ bytes, (program.run.after (machine.withRoom none)).output.written =
        machine.output.written ++ bytes ∧
      (bytes.size ≤ room →
        match program.run (machine.withRoom none) with
        | .ok value after =>
          program.run machine = .ok value (after.withRoom (some (room - bytes.size)))
        | .error fault after =>
          program.run machine = .error fault (after.withRoom (some (room - bytes.size)))) ∧
      (room < bytes.size → ∃ line value between after,
        program.CutOff machine room bytes line value between after) := by
  obtain ⟨bytes, hbytes⟩ :=
    (effectBound_continues.moves_run program (machine.withRoom none)).output
  have hagree := agree_run_filling ⟨⟨room, hroom, rfl⟩, rfl, hflush⟩ program
  refine ⟨bytes, hbytes, ?_⟩
  -- Where the runs part, more is written than there is room for.
  have hparted {fault : Fault} {after after' : Machine}
      (hrun : program.run machine = .error fault after)
      (hafter' : program.run.after (machine.withRoom none) = after')
      (h : Overflows (machine.output.written.size + room) machine.output.refusal fault after
        after') :
      room < bytes.size ∧ ∃ line value between after,
        program.CutOff machine room bytes line value between after := by
    rw [hafter'] at hbytes
    have hsize := h.size
    rw [hbytes, ByteArray.size_append] at hsize
    obtain ⟨line, value, between, hcut⟩ := h.exists_cutOff hroom hflush hrun hbytes
    exact ⟨Nat.lt_of_add_lt_add_left hsize, line, value, between, after, hcut⟩
  rcases hrun : program.run machine with ⟨value, after⟩ | ⟨fault, after⟩ <;>
    rcases hrun' : program.run (machine.withRoom none) with ⟨value', after'⟩ | ⟨fault', after'⟩ <;>
    rw [hrun, hrun'] at hagree
  · -- Both runs give the value, and everything has been taken.
    obtain ⟨rfl, hfills, rfl⟩ := hagree
    rw [after_of_ok hrun'] at hbytes
    obtain ⟨hsize, heq⟩ := hfills.eq_withRoom hbytes
    exact ⟨fun _ => congrArg _ heq, fun hlt => absurd hsize (Nat.not_le.mpr hlt)⟩
  · exact hagree.elim
  · -- The run on the output without end has a value all the same.
    obtain ⟨hsize, hcut⟩ := hparted hrun (after_of_ok hrun') hagree
    exact ⟨fun hle => absurd hle (Nat.not_le.mpr hsize), fun _ => hcut⟩
  · -- Both runs end in a fault: in the same one, or the second run in a later one.
    rcases hagree with ⟨⟨f, rfl, rfl⟩, hfills, rfl⟩ | hagree
    · rw [after_of_error hrun'] at hbytes
      obtain ⟨hsize, heq⟩ := hfills.eq_withRoom hbytes
      exact ⟨fun _ => congrArg _ heq, fun hlt => absurd hsize (Nat.not_le.mpr hlt)⟩
    · obtain ⟨hsize, hcut⟩ := hparted hrun (after_of_error hrun') hagree
      exact ⟨fun hle => absurd hle (Nat.not_le.mpr hsize), fun _ => hcut⟩

/-- A program that writes a line while the value of another one is evaluated. -/
def Program.echoing : Program :=
  [.define "echo" ["found"] [.write (.identifier "found" 2) 2] 1,
    .write (.call "echo" [.literal 1234] 3) 3,
    .assign "done" (.literal 1) 4]

/-- Where `Program.echoing` has room for seven bytes, the inner line is taken and the outer
one is cut off. -/
theorem echoing_cutOff_at_seven_bytes :
    ∃ value between after, Program.echoing.CutOff
        (.fresh (.limited 7 "full") [] (.scripted []) 1) 7 "1234\n1234\n".toUTF8 3 value between
        after ∧
      after.output.written = "1234\n12".toUTF8 := by
  obtain ⟨bytes, hbytes, -, hcut⟩ := Program.run_withRoom
    (show (Machine.fresh (.limited 7 "full") [] (.scripted []) 1).output.room = some 7 from rfl)
    rfl .echoing
  obtain rfl : "1234\n1234\n".toUTF8 = bytes := by
    rw [← ByteArray.empty_append (b := bytes)]
    exact hbytes
  obtain ⟨line, value, between, after, hcut⟩ := hcut (by decide)
  obtain ⟨after', hrun⟩ : ∃ after', Program.echoing.run
      (.fresh (.limited 7 "full") [] (.scripted []) 1) =
        .error ⟨.transfer (.refused "full"), 3, some "write"⟩ after' := ⟨_, rfl⟩
  -- The line of the write is the one that the fault names.
  obtain rfl : 3 = line := by
    have hsame := hrun.symm.trans hcut.run
    cases hsame
    rfl
  exact ⟨value, between, after, hcut, hcut.written⟩

end Scriptlet
