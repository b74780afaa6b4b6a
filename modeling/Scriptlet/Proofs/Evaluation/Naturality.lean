import Scriptlet.Proofs.Evaluation.Simulation

/-!
# Evaluation and lines

Lines have no influence on what a program does. When the lines of a program and of the functions on
its machine are replaced by others, the run gives the same value or a fault with the same cause, and
the lines of the fault, of the functions and of the log are replaced in the same way.

* `lockstep_mapLines`: a machine and its image under a map on lines keep in step.
* `Program.run_mapLines` is the result for whole runs.
-/

namespace Scriptlet

open Evaluation

variable (f : Nat → Nat)

/-- The machines `machine` and `machine.mapLines f` keep in step, and faults have their lines
mapped by `f`. -/
theorem lockstep_mapLines :
    Lockstep (fun machine machine' => machine' = machine.mapLines f) (· = f) where
  functions h name := by
    rw [h, Machine.mapLines, FunctionTable.find?_mapLines]
    exact rel_map_mapLines f _
  current h := by rw [h]; rfl
  depth h := by rw [h]; rfl
  record hg h event := by rw [h, hg]; rfl
  bind {machine machine'} h name value := by rw [h, Machine.mapLines_bind]
  define hg h function := by
    rw [h, hg]
    unfold Machine.mapLines
    rw [FunctionTable.mapLines_define]
  push h frame := by rw [h]; rfl
  leave _ h _ _ := by rw [h]; rfl
  output h := by rw [h]; rfl
  input h := by rw [h]; rfl
  words h := by rw [h]; rfl
  depthLimit h := by rw [h]; rfl
  write h _ := by rw [h]; rfl
  read h _ := by rw [h]; rfl
  draw h _ := by rw [h]; rfl

/-- A run is followed by its image under a map `f` on lines, if `f` keeps zero, the line of
faults that belong to no line. -/
theorem Program.run_mapLines (hf : f 0 = 0) (program : Program) (machine : Machine) :
    Program.run (Program.mapLines f program) (machine.mapLines f) =
      match program.run machine with
      | .ok value after => .ok value (after.mapLines f)
      | .error fault after => .error (fault.mapLine f) (after.mapLines f) := by
  have himage : machine.mapLines f = machine.mapLines f := rfl
  have hagree := (lockstep_mapLines f).agree_run rfl ⟨f, rfl, hf⟩ program himage
  rcases Lockstep.agree_cases hagree with
    ⟨value, after, _, hrun, hrun', rfl⟩ | ⟨fault, _, after, _, rfl, hrun, hrun', rfl⟩
  · rw [hrun, hrun']
  · rw [hrun, hrun']

end Scriptlet
