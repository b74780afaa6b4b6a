import Mathlib
import Scriptlet.Proofs.Evaluation.Shape
import Scriptlet.Proofs.Syntax.Kinds
import Scriptlet.Script

/-!
# Spelling and layout of scripts

Blanks, comments, the two spellings of a keyword and the zeros in front of a number have no
influence on what a script does. Two sources with tokens of the same kinds are refused at the same
token, or they do the same; only lines can differ.

* `readSource_of_lex`: a source without lexical errors is read as its tokens are.
* `runSource_ignores_spelling` is the result.
-/

namespace Scriptlet

theorem readSource_of_lex {source : String} {tokens : List Token}
    (h : lex source = (tokens, [])) :
    readSource source = (readProgram tokens).mapError ScriptError.grammatical := by
  unfold readSource
  rw [h]
  dsimp only
  cases readProgram tokens <;> rfl

/-- Two scripts have given the same value, or they have failed with the same `cause` in the
same `statement`. The lines of the faults are left out. -/
def SameAnswer : Except ScriptError Value → Except ScriptError Value → Prop
  | .ok value, .ok value' => value' = value
  | .error (.runtime fault), .error (.runtime fault') =>
    fault'.cause = fault.cause ∧ fault'.statement = fault.statement
  | _, _ => False

/-- Two sources that are read as programs of the `SameShape` do the same on machines of the
`SameShape`. -/
theorem runSource_of_sameShape {source source' : String} {program program' : Program}
    (h : readSource source = .ok program) (h' : readSource source' = .ok program')
    (hshape : program.SameShape program') {machine machine' : Machine}
    (hmachine : machine.SameShape machine') :
    SameAnswer (runSource source machine).1 (runSource source' machine').1 ∧
      SameCourse machine machine' (runSource source machine).2 (runSource source' machine').2 := by
  have hrun := Program.run_of_sameShape hshape hmachine
  unfold runSource
  rw [h, h']
  dsimp only
  -- The relation on runs says that both end in a value or both in a fault.
  rcases hfirst : program.run machine with ⟨value, after⟩ | ⟨fault, after⟩ <;>
    rcases hsecond : program'.run machine' with ⟨value', after'⟩ | ⟨fault', after'⟩ <;>
    rw [hfirst, hsecond] at hrun
  · exact hrun
  · exact hrun.elim
  · exact hrun.elim
  · exact hrun

/-- **The spelling and the layout of a script are inert.** Let `tokens` and `tokens'` be those
of two sources without lexical errors, and let their kinds be the same. Then the sources are
refused at the same index `i`, where `StopsAt` holds for both, with the same message; or they
are read as programs of the `SameShape`. In the second case they do the same on any two
machines of the `SameShape`: they give the `SameAnswer`, that is the same value or faults of
the same cause in the same statement, and by `SameCourse` they leave the same globals, frames,
output, input and words; functions and logs differ in lines only. -/
theorem runSource_ignores_spelling {source source' : String} {tokens tokens' : List Token}
    (h : lex source = (tokens, [])) (h' : lex source' = (tokens', []))
    (hkinds : tokens'.map Token.kind = tokens.map Token.kind) :
    (∃ i expected, StopsAt tokens i expected ∧ StopsAt tokens' i expected ∧
      readSource source = .error (.grammatical (.expecting expected (tokens.drop i))) ∧
      readSource source' = .error (.grammatical (.expecting expected (tokens'.drop i)))) ∨
    ∃ program program', readSource source = .ok program ∧ readSource source' = .ok program' ∧
      program.SameShape program' ∧
      ∀ machine machine', machine.SameShape machine' →
        SameAnswer (runSource source machine).1 (runSource source' machine').1 ∧
          SameCourse machine machine' (runSource source machine).2
            (runSource source' machine').2 := by
  have hread := readSource_of_lex h
  have hread' := readSource_of_lex h'
  rcases readProgram_of_kinds hkinds with
    ⟨program, program', hok, hok', hshape⟩ | ⟨expected, rest, rest', herror, herror'⟩
  · right
    rw [hok] at hread
    rw [hok'] at hread'
    exact ⟨program, program', hread, hread', hshape, fun machine machine' hmachine =>
      runSource_of_sameShape hread hread' hshape hmachine⟩
  · left
    -- Where the first list is refused, the second one is refused too, by the index and the
    -- message.
    obtain ⟨i, message, hstops⟩ := exists_stopsAt herror
    have hstops' := hstops.of_kinds hkinds
    rw [hstops.error] at hread
    rw [hstops'.error] at hread'
    exact ⟨i, message, hstops, hstops', hread, hread'⟩

/-- The tokens of a script with zeros in front of a number. -/
def paddedNumber : List Token :=
  [⟨.identifier "x", "x", 1⟩, ⟨.assign, "=", 1⟩, ⟨.number 7, "007", 1⟩, ⟨.semicolon, ";", 1⟩,
    ⟨.write, "write", 1⟩, ⟨.leftParen, "(", 1⟩, ⟨.identifier "x", "x", 1⟩, ⟨.rightParen, ")", 1⟩,
    ⟨.semicolon, ";", 1⟩]

/-- The kinds of `paddedNumber` without the zeros, and with the other spelling of the keyword
on a second line. -/
def shortNumber : List Token :=
  [⟨.identifier "x", "x", 1⟩, ⟨.assign, "=", 1⟩, ⟨.number 7, "7", 1⟩, ⟨.semicolon, ";", 1⟩,
    ⟨.write, "ESCREVER", 2⟩, ⟨.leftParen, "(", 2⟩, ⟨.identifier "x", "x", 2⟩,
    ⟨.rightParen, ")", 2⟩, ⟨.semicolon, ";", 2⟩]

/-- The tokens `paddedNumber` and `shortNumber` are read as one program but for lines, and
they write the same. -/
theorem paddedNumber_runs_as_shortNumber :
    lex "x = 007; write(x);" = (paddedNumber, []) ∧
      lex "x = 7; -- seven\nESCREVER(x);" = (shortNumber, []) ∧
      shortNumber.map Token.kind = paddedNumber.map Token.kind ∧ shortNumber ≠ paddedNumber ∧
      ∀ machine, SameAnswer (runSource "x = 007; write(x);" machine).1
        (runSource "x = 7; -- seven\nESCREVER(x);" machine).1 := by
  have hpadded : lex "x = 007; write(x);" = (paddedNumber, []) := by cbv
  have hshort : lex "x = 7; -- seven\nESCREVER(x);" = (shortNumber, []) := by cbv
  have hread : ∃ program, readProgram paddedNumber = .ok program := ⟨_, by cbv⟩
  refine ⟨hpadded, hshort, rfl, by decide, fun machine => ?_⟩
  rcases runSource_ignores_spelling hpadded hshort rfl with
    ⟨i, expected, hstops, -⟩ | ⟨program, program', -, -, -, hruns⟩
  · obtain ⟨program, hok⟩ := hread
    rw [hstops.error] at hok
    cases hok
  · exact (hruns machine machine ⟨rfl, rfl, fun _ => rfl, rfl, rfl, rfl, rfl⟩).1

end Scriptlet
