import Scriptlet.Proofs.Syntax.Respelling

/-!
# Tokens of the same kinds

Whether a list of tokens is a program, which program it is up to lines, where it is refused and with
which message is all decided by the kinds of its tokens.

* `readProgram_of_kinds`: tokens of the same kinds are read alike.
* `Grammar.Viable.of_kinds`: they begin a program alike.
* `StopsAt` is the index at which reading stops, and `StopsAt.of_kinds` says that it is the same.
-/

namespace Scriptlet

open Grammar

/-- The token with its kind only: an empty lexeme and line zero. -/
def Token.bare (token : Token) : Token :=
  ⟨token.kind, "", 0⟩

/-- `Token.bare` keeps the kinds and sends every line to zero, so `readProgram` commutes with
it. -/
theorem respells_bare : Respells Token.bare fun _ => 0 :=
  ⟨fun _ => rfl, fun _ => rfl⟩

theorem map_bare_of_kinds {tokens tokens' : List Token}
    (h : tokens'.map Token.kind = tokens.map Token.kind) :
    tokens'.map Token.bare = tokens.map Token.bare := by
  have hbare : Token.bare = (fun kind => (⟨kind, "", 0⟩ : Token)) ∘ Token.kind := rfl
  rw [hbare, ← List.map_map, h, List.map_map]

theorem SyntaxError.eq_of_expecting_eq {expected expected' : Expectation} {rest rest' : List Token}
    (h : SyntaxError.expecting expected rest = .expecting expected' rest') :
    expected = expected' := by
  rw [← expectation_expecting expected rest, h, expectation_expecting]

/-- Tokens of the same kinds are programs of the `SameShape`, or both are refused with the
same `expected`. -/
theorem readProgram_of_kinds {tokens tokens' : List Token}
    (h : tokens'.map Token.kind = tokens.map Token.kind) :
    (∃ program program', readProgram tokens = .ok program ∧ readProgram tokens' = .ok program' ∧
      program.SameShape program') ∨
    ∃ expected rest rest', readProgram tokens = .error (.expecting expected rest) ∧
      readProgram tokens' = .error (.expecting expected rest') := by
  -- Both lists become the same one when nothing but the kinds is kept, so they are compared
  -- with it.
  have hbare := map_bare_of_kinds h
  rcases readProgram_map respells_bare tokens with
    ⟨program, hok, hbareok⟩ | ⟨expected, rest, herror, hbareerror⟩ <;>
    rcases readProgram_map respells_bare tokens' with
      ⟨program', hok', hbareok'⟩ | ⟨expected', rest', herror', hbareerror'⟩
  · rw [hbare, hbareok, Except.ok.injEq] at hbareok'
    exact .inl ⟨program, program', hok, hok', hbareok'⟩
  · rw [hbare, hbareok] at hbareerror'
    cases hbareerror'
  · rw [hbare, hbareerror] at hbareok'
    cases hbareok'
  · -- The message is the same on the tokens without spelling, and so it is on both lists.
    rw [hbare, hbareerror, Except.error.injEq] at hbareerror'
    rw [← SyntaxError.eq_of_expecting_eq hbareerror'] at herror'
    exact .inr ⟨expected, rest, rest', herror, herror'⟩

/-- `Viable` depends on the kinds of the tokens only. -/
theorem Grammar.Viable.of_kinds {tokens tokens' : List Token} (hviable : Viable tokens)
    (h : tokens'.map Token.kind = tokens.map Token.kind) : Viable tokens' := by
  obtain ⟨more, program, hprogram⟩ := hviable
  have hkinds : (tokens' ++ more).map Token.kind = (tokens ++ more).map Token.kind := by
    rw [List.map_append, List.map_append, h]
  rcases readProgram_of_kinds hkinds with ⟨_, program', -, hok', -⟩ | ⟨_, rest, _, herror, -⟩
  · exact ⟨more, program', derivesProgram_of_readProgram hok'⟩
  · rw [hprogram.readProgram_eq] at herror
    cases herror

/-! ## Where reading stops -/

/-- Reading stops in front of the token at index `i`, or at the end of `tokens`, because
`expected` is missing there: the tokens before `i` are `Viable` and those up to `i` are not. -/
structure StopsAt (tokens : List Token) (i : Nat) (expected : Expectation) : Prop where
  le : i ≤ tokens.length
  viable : Viable (tokens.take i)
  impossible : i < tokens.length → ¬ Viable (tokens.take (i + 1))
  error : readProgram tokens = .error (.expecting expected (tokens.drop i))

theorem exists_stopsAt {tokens : List Token} {error : SyntaxError}
    (h : readProgram tokens = .error error) : ∃ i expected, StopsAt tokens i expected := by
  obtain ⟨program, hok, -⟩ | ⟨used, rest, expected, rfl, hviable, hrefused⟩ :=
    readProgram_cases tokens
  · rw [hok] at h
    cases h
  -- Reading stops behind the tokens that were used.
  refine ⟨used.length, expected, ?_, ?_, ?_, ?_⟩
  · rw [List.length_append]
    exact Nat.le_add_right _ _
  · rwa [List.take_left]
  · intro hlt
    cases rest with
    | nil =>
      rw [List.append_nil] at hlt
      exact absurd hlt (Nat.lt_irrefl _)
    | cons token rest => exact (firstImpossible_of_refused hviable hrefused rest).1
  · rw [List.drop_left]
    exact hrefused rest rfl

theorem StopsAt.le_of_kinds {tokens tokens' : List Token} {i i' : Nat}
    {expected expected' : Expectation} (hstops : StopsAt tokens i expected)
    (hstops' : StopsAt tokens' i' expected')
    (h : tokens'.map Token.kind = tokens.map Token.kind) : i' ≤ i := by
  refine Nat.le_of_not_lt fun hlt => ?_
  have hlength : tokens'.length = tokens.length := by
    simpa only [List.length_map] using congrArg List.length h
  have hle := hstops'.le
  -- The token at the smaller index could not stand there in one list, but it could in the other.
  refine hstops.impossible (by omega) ?_
  have hviable := hstops'.viable.take (i + 1)
  rw [List.take_take, Nat.min_eq_left (by omega)] at hviable
  exact hviable.of_kinds (by rw [List.map_take, List.map_take, h])

/-- `StopsAt` depends on the kinds of the tokens only: the index `i` and the message
`expected` stay. -/
theorem StopsAt.of_kinds {tokens tokens' : List Token} {i : Nat} {expected : Expectation}
    (hstops : StopsAt tokens i expected)
    (h : tokens'.map Token.kind = tokens.map Token.kind) : StopsAt tokens' i expected := by
  rcases readProgram_of_kinds h with ⟨program, _, hok, -⟩ | ⟨message, rest, rest', herror, herror'⟩
  · rw [hstops.error] at hok
    cases hok
  · obtain ⟨i', expected', hstops'⟩ := exists_stopsAt herror'
    -- Neither list stops later than the other, and both messages are that of the bare tokens.
    have hindex : i' = i :=
      Nat.le_antisymm (hstops.le_of_kinds hstops' h) (hstops'.le_of_kinds hstops h.symm)
    have hexpected : expected = message := by
      rw [hstops.error, Except.error.injEq] at herror
      exact SyntaxError.eq_of_expecting_eq herror
    have hexpected' : expected' = message := by
      rw [hstops'.error, Except.error.injEq] at herror'
      exact SyntaxError.eq_of_expecting_eq herror'
    rwa [hindex, hexpected', ← hexpected] at hstops'

end Scriptlet
