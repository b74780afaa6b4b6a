import Scriptlet.Proofs.Syntax.StatementDerivation

/-!
# Programs

Reading a list of tokens as a program decides the grammar, and a list that is no program is refused
at the first token with which it cannot begin a program.

* `readProgram_cases`: a list of tokens is a program of the grammar, or it is refused behind the
  beginning of one, for any tokens after the refused one.
* `readProgram_eq_ok_iff`: the programs that are read are those of the grammar.
* `readProgram_refuses_first_impossible`: where a list that is no program is refused.
-/

namespace Scriptlet

open Grammar

section

variable {tokens rest : List Token}

theorem readProgram_of_error {expected : Expectation}
    (h : (readStatement tokens).outcome = ⟨.error expected, rest⟩) :
    readProgram tokens = .error (.expecting expected rest) := by
  rw [readProgram]
  cases hread : readStatement tokens with
  | complete tree rest' shorter => simp [hread] at h
  | refused expected' rest' =>
    rw [hread, Reading.outcome_refused, Outcome.mk.injEq, Except.error.injEq] at h
    rw [h.1, h.2]

theorem readProgram_of_last {tree : Statement}
    (h : (readStatement tokens).outcome = ⟨.ok tree, []⟩) : readProgram tokens = .ok [tree] := by
  obtain ⟨shorter, hread⟩ := Reading.eq_complete_of_outcome h
  rw [readProgram, hread]

theorem readProgram_of_next {tree : Statement}
    (h : (readStatement tokens).outcome = ⟨.ok tree, rest⟩) (hrest : rest ≠ []) :
    readProgram tokens = (readProgram rest).map (tree :: ·) := by
  obtain ⟨shorter, hread⟩ := Reading.eq_complete_of_outcome h
  obtain ⟨token, rest, rfl⟩ := List.exists_cons_of_ne_nil hrest
  rw [readProgram, hread]
  dsimp only
  cases readProgram (token :: rest) <;> rfl

end

theorem Grammar.DerivesProgram.ne_nil {tokens : List Token} {program : Program}
    (h : DerivesProgram tokens program) : tokens ≠ [] := by
  cases h with
  | lastStatement htree =>
    obtain ⟨token, inner, rfl, -⟩ := htree.starts
    exact List.cons_ne_nil token inner
  | nextStatement htree _ =>
    obtain ⟨token, inner, rfl, -⟩ := htree.starts
    exact List.cons_ne_nil token _

/-- Every program that `DerivesProgram` allows is read, and as the same trees. -/
theorem Grammar.DerivesProgram.readProgram_eq {tokens : List Token} {program : Program}
    (h : DerivesProgram tokens program) : readProgram tokens = .ok program := by
  -- One statement after the other; each is read whatever follows it.
  induction program generalizing tokens with
  | nil => cases h
  | cons tree trees ih =>
    cases h with
    | lastStatement htree =>
      refine readProgram_of_last ?_
      have hread := outcome_readStatement htree []
      rwa [List.append_nil] at hread
    | @nextStatement first others _ _ htree htrees =>
      have hothers : DerivesProgram others trees := htrees
      rw [readProgram_of_next (outcome_readStatement htree others) hothers.ne_nil, ih hothers]
      rfl

theorem Grammar.Viable.of_append {tokens more : List Token} (h : Viable (tokens ++ more)) :
    Viable tokens := by
  obtain ⟨rest, program, hprogram⟩ := h
  exact ⟨more ++ rest, program, by rwa [← List.append_assoc]⟩

theorem Grammar.Viable.take {tokens : List Token} (h : Viable tokens) (n : Nat) :
    Viable (tokens.take n) := by
  rw [← List.take_append_drop n tokens] at h
  exact h.of_append

/-- A list of tokens is a program that `DerivesProgram` allows, or it is refused behind some
`used` that is `Viable`. What stands behind the refused token plays no part: the refusal is
the same in front of every `other` that starts like `rest`. -/
theorem readProgram_cases (tokens : List Token) :
    (∃ program, readProgram tokens = .ok program ∧ DerivesProgram tokens program) ∨
      ∃ used rest expected, tokens = used ++ rest ∧ Viable used ∧
        ∀ other, other.head? = rest.head? →
          readProgram (used ++ other) = .error (.expecting expected other) := by
  induction hn : tokens.length using Nat.strongRecOn generalizing tokens with
  | _ length ih =>
    subst hn
    -- A program is one statement and then, if tokens are left, a program.
    obtain ⟨used, rest, result, htokens, hfits, hread⟩ := reads_statement tokens
    have hhere : (readStatement tokens).outcome = ⟨result, rest⟩ := htokens ▸ hread rest rfl
    cases result with
    | error expected =>
      obtain ⟨more, tree, htree⟩ := hfits
      refine .inr ⟨used, rest, expected, htokens, ⟨more, [tree], .lastStatement htree⟩, ?_⟩
      exact fun other hother => readProgram_of_error (hread other hother)
    | ok tree =>
      have htree : IsStatement used tree := hfits
      cases rest with
      | nil =>
        rw [List.append_nil] at htokens
        exact .inl ⟨[tree], readProgram_of_last hhere, htokens ▸ .lastStatement htree⟩
      | cons token rest =>
        have hnext := readProgram_of_next hhere (List.cons_ne_nil token rest)
        obtain ⟨program, hok, hprogram⟩ | ⟨used', rest', expected, hrest, hviable, hrefused⟩ :=
          ih _ (Reading.length_rest_lt hhere) (token :: rest) rfl
        · refine .inl ⟨tree :: program, by rw [hnext, hok]; rfl, ?_⟩
          rw [htokens]
          exact .nextStatement htree hprogram
        · refine .inr ⟨used ++ used', rest', expected, by rw [htokens, hrest, List.append_assoc],
            ?_, fun other hother => ?_⟩
          · obtain ⟨more, program, hprogram⟩ := hviable
            refine ⟨more, tree :: program, ?_⟩
            rw [List.append_assoc]
            exact .nextStatement htree hprogram
          · -- The statement before is read again, and the same token follows it.
            have hhead : (used' ++ other).head? = some token := by
              rw [head?_append_congr hother, ← hrest, List.head?_cons]
            have hne : used' ++ other ≠ [] := fun h => by simp [h] at hhead
            rw [List.append_assoc, readProgram_of_next (outcome_readStatement htree _) hne,
              hrefused other hother]
            rfl

/-- Every program that is read is one that `DerivesProgram` allows. -/
theorem derivesProgram_of_readProgram {tokens : List Token} {program : Program}
    (h : readProgram tokens = .ok program) : DerivesProgram tokens program := by
  obtain ⟨program', hok, hprogram⟩ | ⟨used, rest, expected, rfl, -, hrefused⟩ :=
    readProgram_cases tokens
  · rw [h, Except.ok.injEq] at hok
    exact hok ▸ hprogram
  · rw [hrefused rest rfl] at h
    cases h

/-- **The reader of programs decides the grammar.** The programs that `readProgram tokens`
gives are exactly those that `DerivesProgram` has for `tokens`, and there is at most one. -/
theorem readProgram_eq_ok_iff (tokens : List Token) :
    (∀ program, readProgram tokens = .ok program ↔ DerivesProgram tokens program) ∧
      Subsingleton {program // DerivesProgram tokens program} := by
  refine ⟨fun program => ⟨derivesProgram_of_readProgram, fun h => h.readProgram_eq⟩, ⟨?_⟩⟩
  rintro ⟨program, h⟩ ⟨program', h'⟩
  have heq : Except.ok program = Except.ok program' :=
    h.readProgram_eq.symm.trans h'.readProgram_eq
  rw [Except.ok.injEq] at heq
  exact Subtype.ext heq

/-- The tokens up to index `i`, with `i` itself, are not `Viable`, and for every `j < i` they
are. -/
def FirstImpossible (tokens : List Token) (i : Nat) : Prop :=
  ¬ Viable (tokens.take (i + 1)) ∧ ∀ j < i, Viable (tokens.take (j + 1))

/-- If `readProgram` refuses `token` behind a `Viable` list `used`, whatever comes after it,
then `token` is the first impossible one. -/
theorem firstImpossible_of_refused {used : List Token} {token : Token} {expected : Expectation}
    (hviable : Viable used)
    (hrefused : ∀ other, other.head? = some token →
      readProgram (used ++ other) = .error (.expecting expected other)) (rest : List Token) :
    FirstImpossible (used ++ token :: rest) used.length := by
  constructor
  · -- A program that goes on with the refused token would be read.
    rintro ⟨more, program, hprogram⟩
    rw [List.take_append, List.take_of_length_le (Nat.le_succ _), Nat.add_sub_cancel_left,
      List.take_succ_cons, List.take_zero, List.append_assoc] at hprogram
    have hok := hprogram.readProgram_eq
    rw [hrefused ([token] ++ more) rfl] at hok
    cases hok
  · -- Up to the refused token there are only tokens that were used.
    intro j hj
    rw [List.take_append_of_le_length hj]
    exact hviable.take (j + 1)

/-- **A syntax error is reported at the first impossible token.** Let `tokens` be no program.
If they are `Viable`, that is, if more tokens could make a program of them, they are refused
with `.unexpectedEnd`, and only then; otherwise they are refused with `.unexpectedToken` at
the index that is `FirstImpossible`, with the lexeme and the line of the token there. -/
theorem readProgram_refuses_first_impossible {tokens : List Token}
    (h : ∀ program, ¬ DerivesProgram tokens program) :
    (Viable tokens ↔ ∃ expected, readProgram tokens = .error (.unexpectedEnd expected)) ∧
      (¬ Viable tokens → ∃ i token expected, FirstImpossible tokens i ∧ tokens[i]? = some token ∧
        readProgram tokens = .error (.unexpectedToken token.lexeme token.line expected)) := by
  obtain ⟨program, -, hprogram⟩ | ⟨used, rest, expected, rfl, hviable, hrefused⟩ :=
    readProgram_cases tokens
  · exact absurd hprogram (h program)
  · have hhere := hrefused rest rfl
    cases rest with
    | nil =>
      rw [List.append_nil] at hhere ⊢
      exact ⟨⟨fun _ => ⟨expected, hhere⟩, fun _ => hviable⟩, fun hnot => absurd hviable hnot⟩
    | cons token rest =>
      have hfirst := firstImpossible_of_refused hviable hrefused rest
      -- All tokens together begin no program, as already those up to the refused one do not.
      have hnot : ¬ Viable (used ++ token :: rest) := fun hall => hfirst.1 (hall.take _)
      refine ⟨⟨fun hall => absurd hall hnot, ?_⟩, fun _ => ?_⟩
      · rintro ⟨expected', hend⟩
        rw [hend] at hhere
        cases hhere
      · exact ⟨used.length, token, expected, hfirst, by simp, hhere⟩

/-- A definition `function f(a, a):` that names a parameter twice. -/
def doubledParameter : List Token :=
  [⟨.function, "function", 1⟩, ⟨.identifier "f", "f", 1⟩, ⟨.leftParen, "(", 1⟩,
    ⟨.identifier "a", "a", 1⟩, ⟨.comma, ",", 1⟩, ⟨.identifier "a", "a", 2⟩,
    ⟨.rightParen, ")", 2⟩, ⟨.colon, ":", 2⟩]

/-- The second `a` is refused: no list that goes on with it is a program. -/
theorem doubledParameter_refused :
    (∀ program, ¬ DerivesProgram doubledParameter program) ∧
      (Viable doubledParameter ↔
        ∃ expected, readProgram doubledParameter = .error (.unexpectedEnd expected)) ∧
      (¬ Viable doubledParameter → ∃ i token expected, FirstImpossible doubledParameter i ∧
        doubledParameter[i]? = some token ∧ readProgram doubledParameter =
          .error (.unexpectedToken token.lexeme token.line expected)) := by
  have hrefused : readProgram doubledParameter =
      .error (.unexpectedToken "a" 2 .distinctParameter) := by cbv
  have hno : ∀ program, ¬ DerivesProgram doubledParameter program := by
    intro program hprogram
    rw [hprogram.readProgram_eq] at hrefused
    cases hrefused
  exact ⟨hno, readProgram_refuses_first_impossible hno⟩

end Scriptlet
