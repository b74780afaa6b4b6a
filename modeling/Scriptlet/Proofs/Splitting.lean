import Scriptlet.Proofs.Evaluation.Naturality
import Scriptlet.Proofs.Evaluation.Sequencing
import Scriptlet.Proofs.Rendering
import Scriptlet.Proofs.Syntax.Relabelling
import Scriptlet.Proofs.Token.Newline

/-!
# Scripts in pieces

A script may be split between two lines and run in pieces on one machine. The second piece does what
it does as part of the whole, but for its lines, which are counted from one again.

* `readSource_append_newline`: the program of two sources, one below the other.
* `Mark` puts marks on line numbers that tell which of two sources a line belongs to, and
  `markedRun` is the run of the second piece in which every line has its mark.
* `runSource_append_newline` is the result.
-/

namespace Scriptlet

open Evaluation Grammar Lexicon

/-! ## Reading -/

/-- The program of `a` and `b`, one below the other: the first program, and the second one as
many lines further down as `lineCount a` says. -/
theorem readSource_append_newline {a b : String} {first second : Program}
    (ha : readSource a = .ok first) (hb : readSource b = .ok second) :
    readSource (a ++ "\n" ++ b) =
      .ok (first ++ Program.mapLines (· + lineCount a) second) := by
  obtain ⟨tokens, hstream, hread⟩ := readSource_eq_ok_iff.mp ha
  obtain ⟨tokens', hstream', hread'⟩ := readSource_eq_ok_iff.mp hb
  -- The grammar does not look at lines, and a program ends wherever another one can start.
  have hbelow := (derivesProgram_of_readProgram hread').mapLines (· + lineCount a)
  have hderives := (derivesProgram_of_readProgram hread).append hbelow
  have hitems : tokenStream (a ++ "\n" ++ b) =
      (tokens ++ tokens'.map (Token.mapLine (· + lineCount a))).map .ok := by
    rw [tokenStream_append_newline fun piece hpiece =>
      content_ne_fault_of_items hstream piece hpiece _, hstream, hstream', List.map_append,
      List.map_map, List.map_map]
    rfl
  exact readSource_eq_ok_iff.mpr ⟨_, hitems, hderives.readProgram_eq⟩

/-! ## Marked lines -/

namespace Mark

/-- The mark of a line of what was there before the second source. -/
def earlier (line : Nat) : Nat := 2 * line

/-- The mark of a line of the second source. -/
def later (line : Nat) : Nat := 2 * line + 1

/-- The line in the source that it belongs to, from its `mark`. It undoes `earlier` and
`later`. -/
def line (mark : Nat) : Nat := mark / 2

/-- The line when the second source stands `k` lines further down: a mark of `earlier` stays
where it is. -/
def lineBelow (k mark : Nat) : Nat :=
  if mark % 2 = 0 then mark / 2 else mark / 2 + k

/-- The two ways to mark a line. -/
def IsMarking (f : Nat → Nat) : Prop :=
  f = earlier ∨ f = later

theorem IsMarking.line_comp {f : Nat → Nat} (h : IsMarking f) : line ∘ f = id := by
  funext n
  rcases h with rfl | rfl <;> simp only [Function.comp_apply, line, earlier, later, id] <;> omega

theorem IsMarking.mapLines_function {f : Nat → Nat} (h : IsMarking f) (function : Function) :
    (function.mapLines f).mapLines line = function := by
  rw [Function.mapLines_mapLines, h.line_comp, Function.mapLines_id]

theorem lineBelow_comp_earlier (k : Nat) : lineBelow k ∘ earlier = id := by
  funext n
  have heven : earlier n % 2 = 0 := Nat.mul_mod_right 2 n
  rw [Function.comp_apply, lineBelow, if_pos heven, earlier, id]
  omega

theorem lineBelow_comp_later (k : Nat) : lineBelow k ∘ later = (· + k) := by
  funext n
  have hodd : later n % 2 ≠ 0 := by rw [later]; omega
  rw [Function.comp_apply, lineBelow, if_neg hodd, later]
  omega

end Mark

open Mark

/-- Every function of `table` belongs to one source as a whole: its lines are marked in one
way. -/
def FunctionTable.Whole (table : FunctionTable) : Prop :=
  ∀ function ∈ table.functions,
    ∃ f, IsMarking f ∧ ∃ original : Function, function = original.mapLines f

/-- A machine and the same machine with marked lines. The functions of `marked` are `Whole`,
so the source of each is known. -/
structure Marked (machine marked : Machine) : Prop where
  unmarked : machine = marked.mapLines line
  whole : marked.functions.Whole

/-- Before the second source is run, every line of `machine` is an `earlier` one. -/
theorem marked_earlier (machine : Machine) : Marked machine (machine.mapLines earlier) where
  unmarked := by
    have hearlier : IsMarking earlier := .inl rfl
    rw [Machine.mapLines_mapLines, hearlier.line_comp, Machine.mapLines_id]
  whole _ hmem := by
    obtain ⟨original, -, rfl⟩ := List.mem_map.mp hmem
    exact ⟨earlier, .inl rfl, original, rfl⟩

/-- The relation `Marked` is kept by every step of an evaluation, on lines that are marked in
either way. So `Lockstep` carries it through a run. -/
theorem lockstep_marked : Lockstep Marked IsMarking where
  functions {machine marked} h name := by
    rw [h.unmarked, Machine.mapLines, FunctionTable.find?_mapLines]
    rcases hfound : marked.functions.find? name with _ | function
    · exact .none
    · -- All lines of the function have the same mark, which is the one its body runs with.
      obtain ⟨f, hf, original, rfl⟩ := h.whole function (List.mem_of_find?_eq_some hfound)
      refine .some ⟨f, hf, ?_⟩
      rw [hf.mapLines_function]
  current h := by rw [h.unmarked]; rfl
  depth h := by rw [h.unmarked]; rfl
  -- Taking the marks off an event gives its line back.
  record {machine marked f} hf h event := by
    refine ⟨?_, h.whole⟩
    have hevent : (event.mapLine f).mapLine line = event := by
      rw [Event.mapLine_mapLine, hf.line_comp, Event.mapLine_id]
    rw [h.unmarked]
    unfold Machine.mapLines Machine.record
    rw [List.map_cons, hevent]
  bind {machine marked} h name value := by
    obtain ⟨globals, frames, hbind⟩ := marked.exists_bind_eq name value
    refine ⟨by rw [h.unmarked, Machine.mapLines_bind], ?_⟩
    rw [hbind]
    exact h.whole
  define {machine marked f} hf h function := by
    refine ⟨?_, fun other hmem => ?_⟩
    · rw [h.unmarked]
      unfold Machine.mapLines
      rw [FunctionTable.mapLines_define, hf.mapLines_function]
    · rcases List.mem_cons.mp hmem with rfl | hmem
      · exact ⟨f, hf, function, rfl⟩
      · exact h.whole other (List.mem_of_mem_filter hmem)
  push h frame := ⟨by rw [h.unmarked]; rfl, h.whole⟩
  leave _ h _ _ := ⟨by rw [h.unmarked]; rfl, h.whole⟩
  output h := by rw [h.unmarked]; rfl
  input h := by rw [h.unmarked]; rfl
  words h := by rw [h.unmarked]; rfl
  depthLimit h := by rw [h.unmarked]; rfl
  write h _ := ⟨by rw [h.unmarked]; rfl, h.whole⟩
  read h _ := ⟨by rw [h.unmarked]; rfl, h.whole⟩
  draw h _ := ⟨by rw [h.unmarked]; rfl, h.whole⟩

/-! ## Running -/

/-- The run of `program` on a machine that was there before, with all lines marked. -/
def markedRun (program : Program) (machine : Machine) : EStateM.Result Fault Machine Value :=
  Program.run (Program.mapLines later program) (machine.mapLines earlier)

/-- Without its marks, `markedRun` is the run of the program. -/
theorem run_of_markedRun (program : Program) (machine : Machine) :
    match markedRun program machine with
    | .ok value marked =>
      program.run machine = .ok value (marked.mapLines line) ∧ marked.functions.Whole
    | .error fault marked =>
      program.run machine = .error (fault.mapLine line) (marked.mapLines line) ∧
        marked.functions.Whole := by
  -- The line of a refused flush is zero, marked or not: it counts as an earlier one.
  have hagree := lockstep_marked.agree_run (.inr rfl) ⟨earlier, .inl rfl, rfl⟩ program
    (marked_earlier machine)
  rcases Lockstep.agree_cases hagree with ⟨value, after, marked, hrun, hmarked, hafter⟩ |
    ⟨fault, f, after, marked, hf, hrun, hmarked, hafter⟩
  · rw [markedRun, hmarked, hrun]
    exact ⟨by rw [hafter.unmarked], hafter.whole⟩
  · have hfault : (fault.mapLine f).mapLine line = fault := by
      rw [Fault.mapLine_mapLine, hf.line_comp, Fault.mapLine_id]
    rw [markedRun, hmarked, hrun]
    exact ⟨by rw [hfault, hafter.unmarked], hafter.whole⟩

/-- With the lines of the program moved by `lineBelow k`, `markedRun` is its run `k` lines
further down. -/
theorem run_below_of_markedRun (k : Nat) (program : Program) (machine : Machine) :
    Program.run (Program.mapLines (· + k) program) machine =
      match markedRun program machine with
      | .ok value marked => .ok value (marked.mapLines (lineBelow k))
      | .error fault marked =>
        .error (fault.mapLine (lineBelow k)) (marked.mapLines (lineBelow k)) := by
  have hrun := Program.run_mapLines (lineBelow k) rfl (Program.mapLines later program)
    (machine.mapLines earlier)
  rwa [Program.mapLines_mapLines, Machine.mapLines_mapLines, lineBelow_comp_later,
    lineBelow_comp_earlier, Machine.mapLines_id] at hrun

/-- **A script may be split between two lines** and run in pieces on one machine, if its
output can be flushed. If `a` fails, so does the whole script, with the same error and the
same machine behind it. Otherwise `b` and the whole script do the same but for lines. They
give the same value, or faults with the same cause in the same statement; and since lines
stand only in the functions and the log of a machine, they leave the same globals, frames,
output, input and words.

The marks of `markedRun` tell which lines differ. A line of `b` is `lineCount a` more in the
whole script, and any other line is the same. This is so for the line of a fault, for the
lines of the log and for those of the functions, each of which is of one source as a whole. -/
theorem runSource_append_newline {a b : String} {first second : Program}
    (ha : readSource a = .ok first) (hb : readSource b = .ok second) {machine : Machine}
    (hflush : machine.output.flushRefusal = none) :
    match runSource a machine with
    | (.error error, after) => runSource (a ++ "\n" ++ b) machine = (.error error, after)
    | (.ok _, between) =>
      match markedRun second between with
      | .ok value marked =>
        runSource b between = (.ok value, marked.mapLines line) ∧
          runSource (a ++ "\n" ++ b) machine =
            (.ok value, marked.mapLines (lineBelow (lineCount a))) ∧
          marked.functions.Whole
      | .error fault marked =>
        runSource b between = (.error (.runtime (fault.mapLine line)), marked.mapLines line) ∧
          runSource (a ++ "\n" ++ b) machine =
            (.error (.runtime (fault.mapLine (lineBelow (lineCount a)))),
              marked.mapLines (lineBelow (lineCount a))) ∧
          marked.functions.Whole := by
  -- No source is read as the empty program.
  have hsecond : Program.mapLines (· + lineCount a) second ≠ [] := by
    obtain ⟨statement, rest, rfl⟩ :=
      List.exists_cons_of_ne_nil (writable_and_renders_of_readSource hb).1.1
    exact List.cons_ne_nil _ _
  have happend := Program.run_append hflush first hsecond
  unfold runSource
  rw [ha, hb, readSource_append_newline ha hb]
  dsimp only
  rw [happend]
  rcases first.run machine with ⟨_, between⟩ | ⟨fault, after⟩
  · dsimp only
    -- The marked run is the second piece without its marks, and the rest of the whole with its
    -- marked lines moved.
    have hpiece := run_of_markedRun second between
    have hwhole := run_below_of_markedRun (lineCount a) second between
    rw [hwhole]
    rcases hmarked : markedRun second between with ⟨value, marked⟩ | ⟨fault, marked⟩ <;>
      rw [hmarked] at hpiece <;> dsimp only <;> rw [hpiece.1]
    · exact ⟨rfl, rfl, hpiece.2⟩
    · exact ⟨rfl, rfl, hpiece.2⟩
  · rfl

/-- A function on the first line and a variable on the second one. -/
def Program.halving : Program :=
  [.define "half" ["n"]
    [.evaluate (.binary .divide (.identifier "n" 1) (.literal 2) 1) 1] 1,
    .assign "x" (.literal 8) 2]

/-- Two calls, the second one with a variable that is not bound. -/
def Program.halvedTwice : Program :=
  [.write (.call "half" [.identifier "x" 1] 1) 1, .write (.call "half" [.identifier "y" 2] 2) 2]

/-- A machine without input on which nothing has happened. -/
def Machine.idle : Machine :=
  .fresh .unlimited [] (.scripted []) defaultDepthLimit

/-- The second line of `Program.halvedTwice` is the fourth line of the whole script, behind
`Program.halving`. -/
theorem halvedTwice_fails_below :
    readSource "function half(n), : n / 2;\nx = 8;" = .ok Program.halving ∧
      readSource "write(half(x));\nwrite(half(y));" = .ok Program.halvedTwice ∧
      Machine.idle.output.flushRefusal = none ∧
      ∃ between after after',
        runSource "function half(n), : n / 2;\nx = 8;" .idle = (.ok (.integer 8), between) ∧
        runSource "write(half(x));\nwrite(half(y));" between =
          (.error (.runtime ⟨.undefinedVariable "y", 2, some "write"⟩), after) ∧
        runSource ("function half(n), : n / 2;\nx = 8;" ++ "\n" ++
            "write(half(x));\nwrite(half(y));") .idle =
          (.error (.runtime ⟨.undefinedVariable "y", 4, some "write"⟩), after') := by
  have ha : readSource "function half(n), : n / 2;\nx = 8;" = .ok Program.halving := by cbv
  have hb : readSource "write(half(x));\nwrite(half(y));" = .ok Program.halvedTwice := by cbv
  have hflush : Machine.idle.output.flushRefusal = none := rfl
  have hfirst : runSource "function half(n), : n / 2;\nx = 8;" .idle =
      (.ok (.integer 8), Program.halving.run.after .idle) := by
    unfold runSource
    rw [ha]
    rfl
  -- The result of the whole text is that of its second part, with the line moved by two.
  have hpieces := runSource_append_newline ha hb hflush
  rw [hfirst] at hpieces
  exact ⟨ha, hb, hflush, _, _, _, hfirst, hpieces.1, hpieces.2.1⟩

end Scriptlet
