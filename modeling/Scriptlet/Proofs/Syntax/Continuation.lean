import Scriptlet.Proofs.Syntax.Program

/-!
# Programs in front of more tokens

What the reader of programs does with some tokens does not depend on what stands behind the token
that it stops at. So more tokens behind a program are read as if they stood alone, and a token that
is refused is refused whatever follows it.

* `Grammar.DerivesProgram.readProgram_append`: tokens behind a program.
* `readProgram_append_of_unexpectedToken`: tokens behind a refused one.
* `readProgram_is_compositional` is the result.
-/

namespace Scriptlet

open Grammar

/-- Tokens behind `first`, which is a program, are read as if they stood alone. -/
theorem Grammar.DerivesProgram.readProgram_append {first second : List Token} {program : Program}
    (h : DerivesProgram first program) (hne : second ≠ []) :
    readProgram (first ++ second) = (readProgram second).map (program ++ ·) := by
  -- A statement is read whatever follows it, so the first program leaves the second list.
  induction program generalizing first with
  | nil => cases h
  | cons tree trees ih =>
    cases h with
    | lastStatement htree =>
      rw [readProgram_of_next (outcome_readStatement htree second) hne]
      rfl
    | @nextStatement _ others _ _ htree htrees =>
      have hothers : DerivesProgram others trees := htrees
      have hrest : others ++ second ≠ [] := List.append_ne_nil_of_right_ne_nil others hne
      rw [List.append_assoc, readProgram_of_next (outcome_readStatement htree _) hrest, ih hothers]
      rcases readProgram second with error | program <;> rfl

/-- A refused token is refused whatever stands behind it. -/
theorem readProgram_append_of_unexpectedToken {tokens : List Token} {lexeme : String} {line : Nat}
    {expected : Expectation}
    (h : readProgram tokens = .error (.unexpectedToken lexeme line expected)) (more : List Token) :
    readProgram (tokens ++ more) = .error (.unexpectedToken lexeme line expected) := by
  obtain ⟨program, hok, -⟩ | ⟨used, rest, expected', rfl, -, hrefused⟩ := readProgram_cases tokens
  · rw [h] at hok
    cases hok
  · rw [hrefused rest rfl, Except.error.injEq] at h
    -- An error at a token means that the reader stopped in front of one.
    rcases rest with _ | ⟨token, rest⟩
    · cases h
    · rw [List.append_assoc, hrefused (token :: rest ++ more) rfl, ← h]
      rfl

/-- **Reading is compositional, and the first refused token is final.** Behind tokens that
`readProgram` reads as `program`, more tokens are read as if they stood alone: their
statements come behind those of the program, or their error is the error of the whole. Behind
tokens of which one is refused, by `unexpectedToken`, no tokens change the error. -/
theorem readProgram_is_compositional :
    (∀ first program second, readProgram first = .ok program → second ≠ [] →
      readProgram (first ++ second) =
        match readProgram second with
        | .ok program' => .ok (program ++ program')
        | .error error => .error error) ∧
      ∀ tokens lexeme line expected more,
        readProgram tokens = .error (.unexpectedToken lexeme line expected) →
          readProgram (tokens ++ more) = .error (.unexpectedToken lexeme line expected) := by
  constructor
  · intro first program second hfirst hne
    rw [(derivesProgram_of_readProgram hfirst).readProgram_append hne]
    rcases readProgram second with error | program' <;> rfl
  · intro tokens lexeme line expected more h
    exact readProgram_append_of_unexpectedToken h more

/-- A call without arguments. -/
def bareCall : List Token :=
  [⟨.identifier "f", "f", 1⟩, ⟨.leftParen, "(", 1⟩, ⟨.rightParen, ")", 1⟩, ⟨.semicolon, ";", 1⟩]

/-- An assignment of nothing. -/
def emptyAssignment : List Token :=
  [⟨.identifier "x", "x", 2⟩, ⟨.assign, "=", 2⟩, ⟨.semicolon, ";", 2⟩]

/-- The error of `emptyAssignment` is the same behind a call and in front of one. -/
theorem emptyAssignment_refused_anywhere :
    readProgram (bareCall ++ emptyAssignment) =
        .error (.unexpectedToken ";" 2 .expression) ∧
      readProgram (bareCall ++ emptyAssignment ++ bareCall) =
        .error (.unexpectedToken ";" 2 .expression) := by
  have hcall : readProgram bareCall = .ok [.evaluate (.call "f" [] 1) 1] := by cbv
  have hassignment : readProgram emptyAssignment =
      .error (.unexpectedToken ";" 2 .expression) := by cbv
  have hne : emptyAssignment ≠ [] := List.cons_ne_nil _ _
  have hbehind : readProgram (bareCall ++ emptyAssignment) =
      .error (.unexpectedToken ";" 2 .expression) := by
    rw [readProgram_is_compositional.1 _ _ _ hcall hne, hassignment]
  exact ⟨hbehind, readProgram_is_compositional.2 _ _ _ _ bareCall hbehind⟩

end Scriptlet
