import Scriptlet.Proofs.Lines
import Scriptlet.Proofs.Syntax.Program

/-!
# Readers and spelling

Readers look at the kinds of tokens and at nothing else. The spelling of a token is only passed on
to a syntax error, and its line to the tree. So when every token is replaced by one of the same
kind, each reader takes as many tokens as before and refuses what it refused before.

* `Respells t f` says that a map `t` on tokens keeps the kinds and changes the lines as `f` does.
* `Outcome.respell` is the outcome of a reading with its value and its tokens changed.
* `outcome_readRank_map` and `outcome_readStatement_map`: the readers commute with `t`.
* `readProgram_map` concludes this for whole programs.
-/

namespace Scriptlet

variable {α β : Type} {t : Token → Token} {f : Nat → Nat}

/-- A map `t` on tokens that keeps the kind of every token and changes its line as `f` does.
The lexeme may become any other. -/
structure Respells (t : Token → Token) (f : Nat → Nat) : Prop where
  kind : ∀ token, (t token).kind = token.kind
  line : ∀ token, (t token).line = f token.line

namespace Outcome

/-- The outcome with its value changed by `g`, if there is one, and the tokens that are left
changed by `t`. -/
def respell (t : Token → Token) (g : α → α) (outcome : Outcome α) : Outcome α :=
  ⟨outcome.result.map g, outcome.rest.map t⟩

@[simp]
theorem respell_ok (g : α → α) (value : α) (rest : List Token) :
    respell t g ⟨.ok value, rest⟩ = ⟨.ok (g value), rest.map t⟩ := rfl

@[simp]
theorem respell_error (g : α → α) (expected : Expectation) (rest : List Token) :
    respell t g ⟨.error expected, rest⟩ = ⟨.error expected, rest.map t⟩ := rfl

/-- Putting readers together with `bind` commutes with `respell`, provided that `second'` does
behind a changed phrase what `second` does behind the phrase. -/
theorem bind_respell {first : Outcome α} {second second' : α → List Token → Outcome β}
    {g : α → α} {g' : β → β}
    (h : ∀ value rest, first = ⟨.ok value, rest⟩ →
      second' (g value) (rest.map t) = (second value rest).respell t g') :
    (first.respell t g).bind second' = (first.bind second).respell t g' := by
  obtain ⟨expected | value, rest⟩ := first
  · rfl
  · exact h value rest rfl

theorem map_respell {first : Outcome α} {h h' : α → β} {g : α → α} {g' : β → β}
    (hcomm : ∀ value, h' (g value) = g' (h value)) :
    (first.respell t g).map h' = (first.map h).respell t g' :=
  bind_respell fun value rest _ => by rw [hcomm, respell_ok]

end Outcome

open Outcome Grammar

variable (ht : Respells t f)
include ht

theorem Respells.forall_head? {P : Token.Kind → Prop} {tokens : List Token}
    (h : ∀ token ∈ tokens.head?, P token.kind) : ∀ token ∈ (tokens.map t).head?, P token.kind := by
  intro token htoken
  rw [List.head?_map] at htoken
  obtain ⟨before, hbefore, rfl⟩ := Option.map_eq_some_iff.mp htoken
  rw [ht.kind]
  exact h before hbefore

/-- The reader `expect` compares kinds only, so it commutes with `t`. -/
theorem outcome_expect_map (kind : Token.Kind) (expected : Expectation) (tokens : List Token) :
    (expect kind expected (tokens.map t)).outcome =
      (expect kind expected tokens).outcome.respell t t := by
  cases tokens with
  | nil => rfl
  | cons token rest =>
    rw [List.map_cons]
    by_cases h : token.kind = kind
    · rw [outcome_expect_of_kind h, outcome_expect_of_kind ((ht.kind token).trans h), respell_ok]
    · rw [outcome_expect_of_kind_ne h, respell_error,
        outcome_expect_of_kind_ne (by rw [ht.kind]; exact h), List.map_cons]

theorem map_expect_map {g : α → α} {kind : Token.Kind} {value value' : α} (h : value' = g value)
    (expected : Expectation) (tokens : List Token) :
    ((expect kind expected (tokens.map t)).outcome.map fun _ => value') =
      ((expect kind expected tokens).outcome.map fun _ => value).respell t g := by
  rw [outcome_expect_map ht]
  exact map_respell fun _ => h

theorem bind_expect_map {g : α → α} {kind : Token.Kind}
    {second second' : List Token → Outcome α}
    (h : ∀ rest, second' (rest.map t) = (second rest).respell t g) (expected : Expectation)
    (tokens : List Token) :
    ((expect kind expected (tokens.map t)).outcome.bind fun _ => second') =
      ((expect kind expected tokens).outcome.bind fun _ => second).respell t g := by
  rw [outcome_expect_map ht]
  exact bind_respell fun _ rest _ => h rest

/-- Behind an element `afterElement` commutes with `t` if `more` does behind the comma. -/
theorem afterElement_map {g : α → α} {close : Token.Kind} {expected : Expectation}
    {more more' : List Token → Outcome (List α)} {element element' : α}
    (helement : element' = g element) {tokens : List Token}
    (h : ∀ comma rest, tokens = comma :: rest →
      more' (rest.map t) = (more rest).respell t (List.map g)) :
    afterElement close expected more' element' (tokens.map t) =
      (afterElement close expected more element tokens).respell t (List.map g) := by
  cases tokens with
  | nil => rfl
  | cons token rest =>
    rw [List.map_cons]
    by_cases hclose : token.kind = close
    · rw [afterElement_of_close _ _ _ _ hclose,
        afterElement_of_close _ _ _ _ ((ht.kind token).trans hclose), helement]
      rfl
    -- The tests are on the kind of the token, which `t` keeps.
    have hclose' : (t token).kind ≠ close := by rwa [ht.kind]
    by_cases hcomma : token.kind = .comma
    · rw [afterElement_of_comma _ _ _ _ hclose hcomma,
        afterElement_of_comma _ _ _ _ hclose' ((ht.kind token).trans hcomma), h token rest rfl,
        helement]
      exact map_respell fun elements => rfl
    · rw [afterElement_of_other _ _ _ _ hclose hcomma,
        afterElement_of_other _ _ _ _ hclose' (by rwa [ht.kind])]
      rfl

/-! ## Expressions -/

omit ht in
theorem Expression.mapLinesAll_eq_map (es : List Expression) :
    Expression.mapLinesAll f es = es.map (Expression.mapLines f) := by
  induction es with
  | nil => rfl
  | cons e es ih => rw [Expression.mapLinesAll, ih, List.map_cons]

/-- The hypothesis of the induction on the number of tokens: on all lists with fewer than
`bound` tokens, `readRank` commutes with `t`, with `f` on the lines of the tree. -/
def RespellsBelow (t : Token → Token) (f : Nat → Nat) (bound : Nat) : Prop :=
  ∀ rank tokens, tokens.length < bound →
    (readRank rank (tokens.map t)).outcome =
      (readRank rank tokens).outcome.respell t (Expression.mapLines f)

theorem chain_map {bound rank : Nat} (ih : RespellsBelow t f bound) {tokens : List Token}
    (hlength : tokens.length ≤ bound) (left : Expression) :
    chain rank (left.mapLines f) (tokens.map t) =
      (chain rank left tokens).respell t (Expression.mapLines f) := by
  induction hn : tokens.length using Nat.strongRecOn generalizing tokens left with
  | _ length ihChain =>
    subst hn
    by_cases hop : ∃ token ∈ tokens.head?, ∃ op, Operator (rank + 1) token.kind op
    · obtain ⟨token, htoken, op, hop⟩ := hop
      obtain ⟨rest, rfl⟩ := List.head?_eq_some_iff.mp htoken
      have hop' : Operator (rank + 1) (t token).kind op := by rwa [ht.kind]
      rw [List.map_cons, chain_of_operator hop, chain_of_operator hop', ih rank rest hlength]
      refine bind_respell fun right after hread => ?_
      -- The operand is not empty, so fewer tokens are left for the rest of the chain.
      have hshort : after.length < (token :: rest).length :=
        Nat.lt_succ_of_lt (Reading.length_rest_lt hread)
      have hchain := ihChain _ hshort (Nat.le_trans (Nat.le_of_lt hshort) hlength)
        (.binary op left right token.line) rfl
      rwa [Expression.mapLines, ← ht.line] at hchain
    · have hnone : ∀ token ∈ tokens.head?, ∀ op, ¬ Operator (rank + 1) token.kind op :=
        fun token htoken op h => hop ⟨token, htoken, op, h⟩
      have hnone' := ht.forall_head? (P := fun kind => ∀ op, ¬ Operator (rank + 1) kind op) hnone
      rw [chain_of_not_operator hnone, chain_of_not_operator hnone', respell_ok]

theorem outcome_readMoreItems_map {bound : Nat} (ih : RespellsBelow t f bound) (close : Token.Kind)
    (expected : Expectation) {tokens : List Token} (hlength : tokens.length < bound) :
    (readMoreItems close expected (tokens.map t)).outcome =
      (readMoreItems close expected tokens).outcome.respell t
        (List.map (Expression.mapLines f)) := by
  induction hn : tokens.length using Nat.strongRecOn generalizing tokens with
  | _ length ihItems =>
    subst hn
    rw [outcome_readMoreItems, outcome_readMoreItems, ih 4 tokens hlength]
    refine bind_respell fun item rest hread => afterElement_map ht rfl fun comma after hrest => ?_
    have hshort : after.length < tokens.length := by
      have hitem := Reading.length_rest_lt hread
      rw [hrest] at hitem
      exact Nat.lt_of_succ_lt hitem
    exact ihItems _ hshort (Nat.lt_trans hshort hlength) rfl

theorem outcome_readItems_map {bound : Nat} (ih : RespellsBelow t f bound) (close : Token.Kind)
    (expected : Expectation) {tokens : List Token} (hlength : tokens.length < bound) :
    (readItems close expected (tokens.map t)).outcome =
      (readItems close expected tokens).outcome.respell t (List.map (Expression.mapLines f)) := by
  by_cases hclose : ∃ token ∈ tokens.head?, token.kind = close
  · obtain ⟨token, htoken, hkind⟩ := hclose
    obtain ⟨rest, rfl⟩ := List.head?_eq_some_iff.mp htoken
    rw [List.map_cons, outcome_readItems_of_close hkind,
      outcome_readItems_of_close ((ht.kind token).trans hkind)]
    rfl
  · have hopen : ∀ token ∈ tokens.head?, token.kind ≠ close :=
      fun token htoken h => hclose ⟨token, htoken, h⟩
    rw [outcome_readItems_of_not_close hopen,
      outcome_readItems_of_not_close (ht.forall_head? (P := (· ≠ close)) hopen)]
    exact outcome_readMoreItems_map ht ih close expected hlength

theorem afterName_map {tokens : List Token} (ih : RespellsBelow t f tokens.length) (name : String)
    (line : Nat) :
    afterName name (f line) (tokens.map t) =
      (afterName name line tokens).respell t (Expression.mapLines f) := by
  by_cases hcall : ∃ opening ∈ tokens.head?, opening.kind = .leftParen
  · obtain ⟨opening, hhead, hopening⟩ := hcall
    obtain ⟨rest, rfl⟩ := List.head?_eq_some_iff.mp hhead
    rw [List.map_cons, afterName_of_leftParen hopening,
      afterName_of_leftParen ((ht.kind opening).trans hopening),
      outcome_readItems_map ht ih _ _ (Nat.lt_succ_self _)]
    refine map_respell fun arguments => ?_
    rw [Expression.mapLines, Expression.mapLinesAll_eq_map]
  · have hname : ∀ token ∈ tokens.head?, token.kind ≠ .leftParen :=
      fun token htoken h => hcall ⟨token, htoken, h⟩
    rw [afterName_of_not_leftParen hname,
      afterName_of_not_leftParen (ht.forall_head? (P := (· ≠ .leftParen)) hname)]
    rfl

theorem outcome_readPrimary_map {tokens : List Token} (ih : RespellsBelow t f tokens.length) :
    (readPrimary (tokens.map t)).outcome =
      (readPrimary tokens).outcome.respell t (Expression.mapLines f) := by
  cases tokens with
  | nil =>
    rw [List.map_nil, readPrimary]
    rfl
  | cons token rest =>
    rw [List.map_cons]
    -- The kind of the first token decides which reader goes on, and `t` keeps it.
    by_cases hstarts : StartsExpression token.kind
    · cases hkind : token.kind with
      | number value =>
        rw [outcome_readPrimary_of_number rest hkind,
          outcome_readPrimary_of_number _ ((ht.kind token).trans hkind)]
        rfl
      | string text =>
        rw [outcome_readPrimary_of_string rest hkind,
          outcome_readPrimary_of_string _ ((ht.kind token).trans hkind)]
        rfl
      | identifier name =>
        have ihRest : RespellsBelow t f rest.length :=
          fun rank list h => ih rank list (Nat.lt_succ_of_lt h)
        rw [outcome_readPrimary_of_name rest hkind,
          outcome_readPrimary_of_name _ ((ht.kind token).trans hkind), ht.line]
        exact afterName_map ht ihRest name token.line
      | leftBracket =>
        rw [outcome_readPrimary_of_leftBracket rest hkind,
          outcome_readPrimary_of_leftBracket _ ((ht.kind token).trans hkind),
          outcome_readItems_map ht ih _ _ (Nat.lt_succ_self _)]
        refine map_respell fun elements => ?_
        rw [Expression.mapLines, Expression.mapLinesAll_eq_map]
      | leftParen =>
        rw [outcome_readPrimary_of_leftParen rest hkind,
          outcome_readPrimary_of_leftParen _ ((ht.kind token).trans hkind),
          ih 4 rest (Nat.lt_succ_self _)]
        exact bind_respell fun inner after _ => map_expect_map ht rfl _ after
      | _ => rw [hkind] at hstarts; exact hstarts.elim
    · rw [outcome_readPrimary_of_not_starts hstarts,
        outcome_readPrimary_of_not_starts (by rwa [ht.kind])]
      rfl

/-- On all tokens `readRank` commutes with `t`, with `f` on the lines of the tree. -/
theorem outcome_readRank_map (rank : Nat) (tokens : List Token) :
    (readRank rank (tokens.map t)).outcome =
      (readRank rank tokens).outcome.respell t (Expression.mapLines f) := by
  induction hn : tokens.length using Nat.strongRecOn generalizing rank tokens with
  | _ length ih =>
    subst hn
    have ihBelow : RespellsBelow t f tokens.length := fun rank list h => ih _ h rank list rfl
    -- A chain starts with an operand of the next tighter rank on the same tokens.
    induction rank with
    | zero =>
      rw [outcome_readRank_zero, outcome_readRank_zero]
      exact outcome_readPrimary_map ht ihBelow
    | succ rank ihRank =>
      rw [outcome_readRank_succ, outcome_readRank_succ, ihRank]
      refine bind_respell fun left rest hread => ?_
      exact chain_map ht ihBelow (Nat.le_of_lt (Reading.length_rest_lt hread)) left

theorem outcome_readExpression_map (tokens : List Token) :
    (readExpression (tokens.map t)).outcome =
      (readExpression tokens).outcome.respell t (Expression.mapLines f) :=
  outcome_readRank_map ht 4 tokens

theorem outcome_readArguments_map (tokens : List Token) :
    (readArguments (tokens.map t)).outcome =
      (readArguments tokens).outcome.respell t (List.map (Expression.mapLines f)) :=
  outcome_readItems_map ht (fun rank list _ => outcome_readRank_map ht rank list) _ _
    (Nat.lt_succ_self _)

/-! ## Statements -/

theorem assignedValue_map (name : String) (line : Nat) (tokens : List Token) :
    assignedValue name (f line) (tokens.map t) =
      (assignedValue name line tokens).respell t (Statement.mapLines f) := by
  rw [assignedValue, assignedValue, outcome_readExpression_map ht]
  exact bind_respell fun value rest _ => map_expect_map ht (by rw [Statement.mapLines]) _ rest

theorem outcome_readAssigned_map (name : String) (line : Nat) (tokens : List Token) :
    (readAssigned name (f line) (tokens.map t)).outcome =
      (readAssigned name line tokens).outcome.respell t (Statement.mapLines f) := by
  by_cases hkeyword : ∃ keyword ∈ tokens.head?, keyword.kind = .read ∨ keyword.kind = .random
  · obtain ⟨keyword, hhead, hkind⟩ := hkeyword
    obtain ⟨rest, rfl⟩ := List.head?_eq_some_iff.mp hhead
    rw [List.map_cons]
    rcases hkind with hread | hrandom
    · rw [outcome_readAssigned_of_read name line rest hread,
        outcome_readAssigned_of_read name _ _ ((ht.kind keyword).trans hread)]
      refine bind_expect_map ht (fun rest => ?_) _ rest
      refine bind_expect_map ht (fun rest => ?_) _ rest
      exact map_expect_map ht (by rw [Statement.mapLines]) _ rest
    · rw [outcome_readAssigned_of_random name line rest hrandom,
        outcome_readAssigned_of_random name _ _ ((ht.kind keyword).trans hrandom)]
      refine bind_expect_map ht (fun rest => ?_) _ rest
      rw [outcome_readExpression_map ht]
      refine bind_respell fun bound rest _ => ?_
      refine bind_expect_map ht (fun rest => ?_) _ rest
      exact map_expect_map ht (by rw [Statement.mapLines]) _ rest
  · have hvalue : ∀ token ∈ tokens.head?, token.kind ≠ .read ∧ token.kind ≠ .random :=
      fun token htoken => ⟨fun h => hkeyword ⟨token, htoken, .inl h⟩,
        fun h => hkeyword ⟨token, htoken, .inr h⟩⟩
    rw [outcome_readAssigned_of_value name line hvalue, outcome_readAssigned_of_value name _
      (ht.forall_head? (P := fun kind => kind ≠ .read ∧ kind ≠ .random) hvalue)]
    exact assignedValue_map ht name line tokens

theorem outcome_readNamed_map (name : String) (line : Nat) (tokens : List Token) :
    (readNamed name (f line) (tokens.map t)).outcome =
      (readNamed name line tokens).outcome.respell t (Statement.mapLines f) := by
  cases tokens with
  | nil => rfl
  | cons token rest =>
    rw [List.map_cons]
    by_cases hassign : token.kind = .assign
    · rw [outcome_readNamed_of_assign name line rest hassign,
        outcome_readNamed_of_assign name _ _ ((ht.kind token).trans hassign)]
      exact outcome_readAssigned_map ht name line rest
    by_cases hopening : token.kind = .leftParen
    · rw [outcome_readNamed_of_leftParen name line rest hopening,
        outcome_readNamed_of_leftParen name _ _ ((ht.kind token).trans hopening),
        outcome_readArguments_map ht]
      refine bind_respell fun arguments rest _ => map_expect_map ht ?_ _ rest
      rw [Statement.mapLines, Expression.mapLines, Expression.mapLinesAll_eq_map]
    · rw [outcome_readNamed_of_other name line rest hassign hopening,
        outcome_readNamed_of_other name _ _ (by rwa [ht.kind]) (by rwa [ht.kind])]
      rfl

theorem outcome_readWritten_map (line : Nat) (tokens : List Token) :
    (readWritten (f line) (tokens.map t)).outcome =
      (readWritten line tokens).outcome.respell t (Statement.mapLines f) := by
  rw [outcome_readWritten, outcome_readWritten]
  refine bind_expect_map ht (fun rest => ?_) _ tokens
  rw [outcome_readExpression_map ht]
  refine bind_respell fun value rest _ => ?_
  refine bind_expect_map ht (fun rest => ?_) _ rest
  exact map_expect_map ht (by rw [Statement.mapLines]) _ rest

/-- Names are kinds, so the same parameters are read, and those in `before` are refused alike. -/
theorem outcome_readMoreParameters_map (before : List String) (tokens : List Token) :
    (readMoreParameters before (tokens.map t)).outcome =
      (readMoreParameters before tokens).outcome.respell t id := by
  induction hn : tokens.length using Nat.strongRecOn generalizing before tokens with
  | _ length ih =>
    subst hn
    cases tokens with
    | nil =>
      rw [List.map_nil, readMoreParameters]
      rfl
    | cons token rest =>
      rw [List.map_cons]
      by_cases hname : ∃ name, token.kind = .identifier name
      · obtain ⟨name, hname⟩ := hname
        have hname' : (t token).kind = .identifier name := (ht.kind token).trans hname
        by_cases hold : name ∈ before
        · rw [outcome_readMoreParameters_of_old rest hname hold,
            outcome_readMoreParameters_of_old _ hname' hold]
          rfl
        · rw [outcome_readMoreParameters_of_new rest hname hold,
            outcome_readMoreParameters_of_new _ hname' hold, ← List.map_id_fun]
          refine afterElement_map ht (by rw [id]) fun comma after hrest => ?_
          rw [List.map_id_fun]
          refine ih _ ?_ (name :: before) after rfl
          rw [hrest]
          exact Nat.lt_succ_of_lt (Nat.lt_succ_self _)
      · have hother : ∀ name, token.kind ≠ .identifier name := fun name h => hname ⟨name, h⟩
        rw [outcome_readMoreParameters_of_other rest hother,
          outcome_readMoreParameters_of_other _ (by rwa [ht.kind])]
        rfl

theorem outcome_readParameters_map (tokens : List Token) :
    (readParameters (tokens.map t)).outcome =
      (readParameters tokens).outcome.respell t id := by
  by_cases hclose : ∃ token ∈ tokens.head?, token.kind = .rightParen
  · obtain ⟨token, htoken, hkind⟩ := hclose
    obtain ⟨rest, rfl⟩ := List.head?_eq_some_iff.mp htoken
    rw [List.map_cons, outcome_readParameters_of_rightParen hkind,
      outcome_readParameters_of_rightParen ((ht.kind token).trans hkind)]
    rfl
  · have hopen : ∀ token ∈ tokens.head?, token.kind ≠ .rightParen :=
      fun token htoken h => hclose ⟨token, htoken, h⟩
    rw [outcome_readParameters_of_not_rightParen hopen,
      outcome_readParameters_of_not_rightParen (ht.forall_head? (P := (· ≠ .rightParen)) hopen)]
    exact outcome_readMoreParameters_map ht [] tokens

theorem outcome_expectName_map (expected : Expectation) (tokens : List Token) :
    (expectName expected (tokens.map t)).outcome =
      (expectName expected tokens).outcome.respell t id := by
  cases tokens with
  | nil => rfl
  | cons token rest =>
    rw [List.map_cons]
    by_cases hname : ∃ name, token.kind = .identifier name
    · obtain ⟨name, hname⟩ := hname
      rw [outcome_expectName_of_name hname,
        outcome_expectName_of_name ((ht.kind token).trans hname)]
      rfl
    · have hother : ∀ name, token.kind ≠ .identifier name := fun name h => hname ⟨name, h⟩
      rw [outcome_expectName_of_other hother, outcome_expectName_of_other (by rwa [ht.kind])]
      rfl

theorem outcome_readHeader_map (tokens : List Token) :
    (readHeader (tokens.map t)).outcome = (readHeader tokens).outcome.respell t id := by
  rw [outcome_readHeader, outcome_readHeader, outcome_expectName_map ht]
  refine bind_respell fun name rest _ => ?_
  refine bind_expect_map ht (fun rest => ?_) _ rest
  rw [outcome_readParameters_map ht]
  exact map_respell fun parameters => rfl

/-- The line of a short body is that of its first token, or `line` if there is none, so `f`
applies in both cases. -/
theorem outcome_readShortBody_map (line : Nat) (tokens : List Token) :
    (readShortBody (f line) (tokens.map t)).outcome =
      (readShortBody line tokens).outcome.respell t (Program.mapLines f) := by
  rw [outcome_readShortBody, outcome_readShortBody]
  refine bind_expect_map ht (fun rest => ?_) _ tokens
  have hline : ((rest.map t).head?.map Token.line).getD (f line) =
      f ((rest.head?.map Token.line).getD line) := by
    cases rest with
    | nil => rfl
    | cons token rest => exact ht.line token
  rw [hline, shortBodyValue, shortBodyValue, outcome_readExpression_map ht]
  refine bind_respell fun value rest _ => map_expect_map ht ?_ _ rest
  rw [Program.mapLines, Program.mapLines, Statement.mapLines]

/-- The hypothesis of the induction on the number of tokens: on all lists with fewer than
`bound` tokens, `readStatement` commutes with `t`, with `f` on the lines of the tree. -/
def RespellsStatementsBelow (t : Token → Token) (f : Nat → Nat) (bound : Nat) : Prop :=
  ∀ tokens, tokens.length < bound →
    (readStatement (tokens.map t)).outcome =
      (readStatement tokens).outcome.respell t (Statement.mapLines f)

omit ht in
theorem map_cons_respell {outcome : Outcome (List Statement)} (first : Statement) :
    (outcome.respell t (Program.mapLines f)).map (first.mapLines f :: ·) =
      (outcome.map (first :: ·)).respell t (Program.mapLines f) :=
  map_respell fun _ => by rw [Program.mapLines]

theorem outcome_readBlock_map {bound : Nat} (ih : RespellsStatementsBelow t f bound)
    {tokens : List Token} (hlength : tokens.length < bound) :
    (readBlock (tokens.map t)).outcome =
      (readBlock tokens).outcome.respell t (Program.mapLines f) := by
  -- A statement of the block takes a token at least, so what is left of the block is shorter.
  induction hn : tokens.length using Nat.strongRecOn generalizing tokens with
  | _ length ihBlock =>
    subst hn
    cases tokens with
    | nil =>
      rw [List.map_nil, outcome_readBlock_nil]
      rfl
    | cons token rest =>
      by_cases hend : token.kind = .endBlock
      · rw [List.map_cons, outcome_readBlock_of_end hend,
          outcome_readBlock_of_end ((ht.kind token).trans hend)]
        rfl
      · have hread := ih (token :: rest) hlength
        rw [List.map_cons] at hread ⊢
        rw [outcome_readBlock_of_not_end hend, outcome_readBlock_of_not_end (by rwa [ht.kind]),
          hread]
        refine bind_respell fun first after hfirst => ?_
        have hshort : after.length < (token :: rest).length := Reading.length_rest_lt hfirst
        rw [ihBlock _ hshort (Nat.lt_trans hshort hlength) rfl]
        exact map_cons_respell first

theorem outcome_readBody_map {tokens : List Token}
    (ih : RespellsStatementsBelow t f tokens.length) (line : Nat) :
    (readBody (f line) (tokens.map t)).outcome =
      (readBody line tokens).outcome.respell t (Program.mapLines f) := by
  cases tokens with
  | nil =>
    rw [List.map_nil, outcome_readBody_nil, outcome_readBody_nil]
    rfl
  | cons token rest =>
    rw [List.map_cons]
    by_cases hcomma : token.kind = .comma
    · rw [outcome_readBody_of_comma hcomma,
        outcome_readBody_of_comma ((ht.kind token).trans hcomma)]
      exact outcome_readShortBody_map ht line rest
    -- A body starts with a comma or with a colon; the line counts in the first case only.
    by_cases hcolon : token.kind = .colon
    · rw [outcome_readBody_of_colon hcolon,
        outcome_readBody_of_colon ((ht.kind token).trans hcolon), ih rest (Nat.lt_succ_self _)]
      refine bind_respell fun first after hfirst => ?_
      have hshort : after.length < (token :: rest).length :=
        Nat.lt_succ_of_lt (Reading.length_rest_lt hfirst)
      rw [outcome_readBlock_map ht ih hshort]
      exact map_cons_respell first
    · rw [outcome_readBody_of_other hcomma hcolon,
        outcome_readBody_of_other (by rwa [ht.kind]) (by rwa [ht.kind])]
      rfl

/-- On all tokens `readStatement` commutes with `t`, with `f` on the lines of the tree. -/
theorem outcome_readStatement_map (tokens : List Token) :
    (readStatement (tokens.map t)).outcome =
      (readStatement tokens).outcome.respell t (Statement.mapLines f) := by
  induction hn : tokens.length using Nat.strongRecOn generalizing tokens with
  | _ length ih =>
    subst hn
    cases tokens with
    | nil =>
      rw [List.map_nil, outcome_readStatement_nil]
      rfl
    | cons token rest =>
      rw [List.map_cons]
      by_cases hstarts : StartsStatement token.kind
      · cases hkind : token.kind with
        | function =>
          rw [outcome_readStatement_of_function rest hkind,
            outcome_readStatement_of_function _ ((ht.kind token).trans hkind),
            outcome_readHeader_map ht, ht.line]
          refine bind_respell fun header after hheader => ?_
          -- The statements inside are behind the header, so fewer tokens make them up.
          have hle := Nat.le_of_lt (Reading.length_rest_lt hheader)
          have ihAfter : RespellsStatementsBelow t f after.length := fun list h =>
            ih _ (Nat.lt_succ_of_lt (Nat.lt_of_lt_of_le h hle)) list rfl
          rw [outcome_readBody_map ht ihAfter]
          exact map_respell fun body => rfl
        | write =>
          rw [outcome_readStatement_of_write rest hkind,
            outcome_readStatement_of_write _ ((ht.kind token).trans hkind), ht.line]
          exact outcome_readWritten_map ht token.line rest
        | identifier name =>
          rw [outcome_readStatement_of_name rest hkind,
            outcome_readStatement_of_name _ ((ht.kind token).trans hkind), ht.line]
          exact outcome_readNamed_map ht name token.line rest
        | _ => rw [hkind] at hstarts; exact hstarts.elim
      · rw [outcome_readStatement_of_not_starts hstarts,
          outcome_readStatement_of_not_starts (by rwa [ht.kind])]
        rfl

/-! ## Programs -/

/-- Either both `tokens` and `tokens.map t` are programs, the second one with `f` applied to
the lines of the first, or both are refused with the same `expected`, in front of `rest` and
`rest.map t`. -/
theorem readProgram_map (tokens : List Token) :
    (∃ program, readProgram tokens = .ok program ∧
      readProgram (tokens.map t) = .ok (Program.mapLines f program)) ∨
    ∃ expected rest, readProgram tokens = .error (.expecting expected rest) ∧
      readProgram (tokens.map t) = .error (.expecting expected (rest.map t)) := by
  induction hn : tokens.length using Nat.strongRecOn generalizing tokens with
  | _ length ih =>
    subst hn
    have hread := outcome_readStatement_map ht tokens
    rcases hhere : (readStatement tokens).outcome with ⟨expected | tree, rest⟩ <;>
      rw [hhere] at hread
    · exact .inr ⟨expected, rest, readProgram_of_error hhere, readProgram_of_error hread⟩
    cases rest with
    | nil => exact .inl ⟨[tree], readProgram_of_last hhere, readProgram_of_last hread⟩
    | cons token rest =>
      rw [readProgram_of_next hhere (List.cons_ne_nil token rest),
        readProgram_of_next hread (List.cons_ne_nil _ _)]
      -- The tokens behind the statement are fewer, and they are read as a program in both cases.
      rcases ih _ (Reading.length_rest_lt hhere) (token :: rest) rfl with
        ⟨program, hok, hok'⟩ | ⟨expected, left, herror, herror'⟩
      · refine .inl ⟨tree :: program, ?_, ?_⟩
        · rw [hok]
          rfl
        · rw [hok']
          rfl
      · refine .inr ⟨expected, left, ?_, ?_⟩
        · rw [herror]
          rfl
        · rw [herror']
          rfl

end Scriptlet
