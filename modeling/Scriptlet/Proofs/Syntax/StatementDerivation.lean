import Scriptlet.Proofs.Syntax.ExpressionDerivation
import Scriptlet.Proofs.Syntax.StatementReading

/-!
# Every statement of the grammar is read

A statement of the grammar is read as its tree, whatever follows it: its last token closes it.

* `DerivesNames.isRead` is the induction on parameter lists; the names that were read before are the
  invariant.
* `DerivesClause.isRead` is the induction on derivations of statements, bodies and blocks.
-/

namespace Scriptlet

open Grammar

theorem Grammar.Spells.uncons {tokens : List Token} {kind : Token.Kind} {kinds : List Token.Kind}
    (h : Spells tokens (kind :: kinds)) :
    ∃ token rest, tokens = token :: rest ∧ token.kind = kind ∧ Spells rest kinds := by
  obtain ⟨token, rest, rfl, hkind, hrest⟩ := List.map_eq_cons_iff.mp h
  exact ⟨token, rest, rfl, hkind, hrest⟩

theorem Grammar.Spells.exists_eq_singleton {tokens : List Token} {kind : Token.Kind}
    (h : Spells tokens [kind]) : ∃ token, tokens = [token] ∧ token.kind = kind := by
  obtain ⟨token, rest, rfl, hkind, hrest⟩ := h.uncons
  rw [Spells, List.map_eq_nil_iff] at hrest
  exact ⟨token, by rw [hrest], hkind⟩

theorem Grammar.Spells.exists_eq_pair {tokens : List Token} {kind kind' : Token.Kind}
    (h : Spells tokens [kind, kind']) :
    ∃ token token', tokens = [token, token'] ∧ token.kind = kind ∧ token'.kind = kind' := by
  obtain ⟨token, rest, rfl, hkind, hrest⟩ := h.uncons
  obtain ⟨token', rfl, hkind'⟩ := hrest.exists_eq_singleton
  exact ⟨token, token', rfl, hkind, hkind'⟩

/-- The invariant of a parameter list: `names` that are distinct and not among those read
`before` are read up to the closing parenthesis. -/
theorem Grammar.DerivesNames.isRead {tokens : List Token} {names : List String}
    (h : DerivesNames tokens names) {before : List String} (hdistinct : names.Nodup)
    (hnew : ∀ name ∈ names, name ∉ before) {closing : Token} (hclosing : closing.kind = .rightParen)
    (rest : List Token) :
    (readMoreParameters before (tokens ++ closing :: rest)).outcome = ⟨.ok names, rest⟩ := by
  induction h generalizing before with
  | @last token name hname =>
    rw [List.singleton_append,
      outcome_readMoreParameters_of_new _ hname (hnew name List.mem_cons_self),
      afterElement_of_close _ _ _ _ hclosing]
  | @next token comma name inner names hname hcomma _ ih =>
    rw [List.nodup_cons] at hdistinct
    -- The name in front is old for the names behind it, and it is none of them.
    have hnewRest : ∀ other ∈ names, other ∉ name :: before := by
      intro other hmem hbefore
      rcases List.mem_cons.mp hbefore with rfl | hbefore
      · exact hdistinct.1 hmem
      · exact hnew other (List.mem_cons_of_mem _ hmem) hbefore
    have hne : comma.kind ≠ .rightParen := by rw [hcomma]; decide
    rw [List.cons_append, List.cons_append,
      outcome_readMoreParameters_of_new _ hname (hnew name List.mem_cons_self),
      afterElement_of_comma _ _ _ _ hne hcomma, ih hdistinct.2 hnewRest, Outcome.map_ok]

theorem outcome_readParameters {tokens : List Token} {names : List String}
    (h : DerivesParameters tokens names) {closing : Token} (hclosing : closing.kind = .rightParen)
    (rest : List Token) :
    (readParameters (tokens ++ closing :: rest)).outcome = ⟨.ok names, rest⟩ := by
  cases h with
  | none => exact outcome_readParameters_of_rightParen hclosing rest
  | some hnames hdistinct =>
    rw [outcome_readParameters_of_not_rightParen]
    · exact hnames.isRead hdistinct (fun name _ => List.not_mem_nil) hclosing rest
    · cases hnames with
      | last hname | next hname =>
        rintro token ⟨⟩ hkind
        rw [hname] at hkind
        cases hkind

/-- How each form of `Clause` is read in front of any tokens `rest`. Statements in a row are
read up to the `.endBlock` that follows them. -/
def Grammar.Clause.IsRead (tokens : List Token) : Clause → Prop
  | .statement tree => ∀ rest, (readStatement (tokens ++ rest)).outcome = ⟨.ok tree, rest⟩
  | .body trees => ∀ line rest, (readBody line (tokens ++ rest)).outcome = ⟨.ok trees, rest⟩
  | .statements trees => ∀ closing rest, closing.kind = .endBlock →
    statementsToEnd (tokens ++ closing :: rest) = ⟨.ok trees, rest⟩

theorem Grammar.DerivesClause.starts {tokens : List Token} {tree : Statement}
    (h : DerivesClause tokens (.statement tree)) :
    ∃ token rest, tokens = token :: rest ∧ StartsStatement token.kind := by
  cases h with
  | read h | random h | assign h | write h | call h | define h =>
    exact ⟨_, _, rfl, by rw [h]; trivial⟩

/-- An expression starts with neither of the keywords that `readAssigned` tries first. -/
theorem not_keyword_of_derivesExpression {tokens : List Token} {tree : Expression}
    (h : DerivesExpression tokens tree) (rest : List Token) :
    ∀ token ∈ (tokens ++ rest).head?, token.kind ≠ .read ∧ token.kind ≠ .random := by
  obtain ⟨first, inner, rfl, hstarts⟩ := Grammar.DerivesTerm.starts h
  rintro token ⟨⟩
  exact ⟨fun hkind => by rw [hkind] at hstarts; exact hstarts,
    fun hkind => by rw [hkind] at hstarts; exact hstarts⟩

/-- A `readBlock` that stands in front of a statement does not end there. -/
theorem outcome_readBlock_of_statement {tokens : List Token} {tree : Statement}
    (h : DerivesClause tokens (.statement tree)) (rest : List Token) :
    (readBlock (tokens ++ rest)).outcome = statementsToEnd (tokens ++ rest) := by
  obtain ⟨first, inner, rfl, hstarts⟩ := h.starts
  -- The keyword that closes a block starts no statement.
  refine outcome_readBlock_of_not_end (fun hkind => ?_) (inner ++ rest)
  rw [hkind] at hstarts
  exact hstarts

theorem outcome_readBlock_of_program {tokens : List Token} {trees : List Statement}
    (h : DerivesProgram tokens trees) (rest : List Token) :
    (readBlock (tokens ++ rest)).outcome = statementsToEnd (tokens ++ rest) := by
  cases h with
  | lastStatement htree => exact outcome_readBlock_of_statement htree rest
  | nextStatement htree _ =>
    rw [List.append_assoc]
    exact outcome_readBlock_of_statement htree _

/-- By induction on the derivation: every phrase of `DerivesClause` is read in the sense of
`Clause.IsRead`. -/
theorem Grammar.DerivesClause.isRead {tokens : List Token} {clause : Clause}
    (h : DerivesClause tokens clause) : clause.IsRead tokens := by
  -- In each case the tokens of the rule are taken one by one and the reader is run over them.
  induction h with
  | @read token after name hname hafter =>
    intro rest
    obtain ⟨equals, after, rfl, hequals, hafter⟩ := hafter.uncons
    obtain ⟨keyword, after, rfl, hkeyword, hafter⟩ := hafter.uncons
    obtain ⟨opening, after, rfl, hopening, hafter⟩ := hafter.uncons
    obtain ⟨closing, semicolon, rfl, hclosing, hsemicolon⟩ := hafter.exists_eq_pair
    simp only [List.cons_append, List.nil_append]
    rw [outcome_readStatement_of_name _ hname, outcome_readNamed_of_assign _ _ _ hequals,
      outcome_readAssigned_of_read _ _ _ hkeyword, outcome_expect_of_kind hopening, Outcome.bind_ok,
      outcome_expect_of_kind hclosing, Outcome.bind_ok, outcome_expect_of_kind hsemicolon,
      Outcome.map_ok]
  | @random token before inner after name bound hname hbefore hbound hafter =>
    intro rest
    obtain ⟨equals, before, rfl, hequals, hbefore⟩ := hbefore.uncons
    obtain ⟨keyword, opening, rfl, hkeyword, hopening⟩ := hbefore.exists_eq_pair
    obtain ⟨closing, semicolon, rfl, hclosing, hsemicolon⟩ := hafter.exists_eq_pair
    have hends : EndsExpression closing.kind := by rw [hclosing]; trivial
    simp only [List.cons_append, List.nil_append]
    rw [outcome_readStatement_of_name _ hname, outcome_readNamed_of_assign _ _ _ hequals,
      outcome_readAssigned_of_random _ _ _ hkeyword, outcome_expect_of_kind hopening,
      Outcome.bind_ok, List.append_assoc, List.cons_append, List.singleton_append,
      outcome_readExpression hbound hends, Outcome.bind_ok,
      outcome_expect_of_kind hclosing, Outcome.bind_ok, outcome_expect_of_kind hsemicolon,
      Outcome.map_ok]
  | @assign token before inner after name value hname hbefore hvalue hafter =>
    intro rest
    obtain ⟨equals, rfl, hequals⟩ := hbefore.exists_eq_singleton
    obtain ⟨semicolon, rfl, hsemicolon⟩ := hafter.exists_eq_singleton
    have hends : EndsExpression semicolon.kind := by rw [hsemicolon]; trivial
    simp only [List.cons_append, List.nil_append]
    rw [outcome_readStatement_of_name _ hname, outcome_readNamed_of_assign _ _ _ hequals,
      List.append_assoc, List.singleton_append,
      outcome_readAssigned_of_value _ _ (not_keyword_of_derivesExpression hvalue _), assignedValue,
      outcome_readExpression hvalue hends, Outcome.bind_ok, outcome_expect_of_kind hsemicolon,
      Outcome.map_ok]
  | @write token before inner after value hkeyword hbefore hvalue hafter =>
    intro rest
    obtain ⟨opening, rfl, hopening⟩ := hbefore.exists_eq_singleton
    obtain ⟨closing, semicolon, rfl, hclosing, hsemicolon⟩ := hafter.exists_eq_pair
    have hends : EndsExpression closing.kind := by rw [hclosing]; trivial
    simp only [List.cons_append, List.nil_append]
    rw [outcome_readStatement_of_write _ hkeyword, outcome_readWritten,
      outcome_expect_of_kind hopening, Outcome.bind_ok, List.append_assoc, List.cons_append,
      List.singleton_append, outcome_readExpression hvalue hends, Outcome.bind_ok,
      outcome_expect_of_kind hclosing, Outcome.bind_ok,
      outcome_expect_of_kind hsemicolon, Outcome.map_ok]
  | @call token before inner after name arguments hname hbefore harguments hafter =>
    intro rest
    obtain ⟨opening, rfl, hopening⟩ := hbefore.exists_eq_singleton
    obtain ⟨closing, semicolon, rfl, hclosing, hsemicolon⟩ := hafter.exists_eq_pair
    simp only [List.cons_append, List.nil_append]
    rw [outcome_readStatement_of_name _ hname, outcome_readNamed_of_leftParen _ _ _ hopening,
      List.append_assoc, List.cons_append, List.singleton_append,
      outcome_readArguments harguments hclosing, Outcome.bind_ok,
      outcome_expect_of_kind hsemicolon, Outcome.map_ok]
  | @define token before inner after tokens name parameters body hkeyword hbefore hparameters hafter
      _ ih =>
    intro rest
    obtain ⟨nameToken, opening, rfl, hname, hopening⟩ := hbefore.exists_eq_pair
    obtain ⟨closing, rfl, hclosing⟩ := hafter.exists_eq_singleton
    simp only [List.cons_append, List.nil_append]
    rw [outcome_readStatement_of_function _ hkeyword, outcome_readHeader,
      outcome_expectName_of_name hname, Outcome.bind_ok, outcome_expect_of_kind hopening,
      Outcome.bind_ok, List.append_assoc, List.append_assoc, List.singleton_append,
      outcome_readParameters hparameters hclosing, Outcome.map_ok,
      Outcome.bind_ok, ih, Outcome.map_ok]
  | @shortBody before inner after token value hbefore hvalue hafter =>
    intro line rest
    obtain ⟨comma, colon, rfl, hcomma, hcolon⟩ := hbefore.exists_eq_pair
    obtain ⟨semicolon, rfl, hsemicolon⟩ := hafter.exists_eq_singleton
    have hends : EndsExpression semicolon.kind := by rw [hsemicolon]; trivial
    rw [List.append_assoc, List.append_assoc, List.cons_append, List.singleton_append,
      outcome_readBody_of_comma hcomma, outcome_readShortBody, outcome_expect_of_kind hcolon,
      Outcome.bind_ok, shortBodyValue, List.singleton_append, outcome_readExpression hvalue hends,
      Outcome.bind_ok, outcome_expect_of_kind hsemicolon]
    rfl
  | @block before inner after body hbefore hbody hafter ih =>
    intro line rest
    obtain ⟨colon, rfl, hcolon⟩ := hbefore.exists_eq_singleton
    obtain ⟨closing, rfl, hclosing⟩ := hafter.exists_eq_singleton
    rw [List.append_assoc, List.append_assoc, List.singleton_append,
      outcome_readBody_of_colon hcolon]
    exact ih closing rest hclosing
  -- A block ends where `.endBlock` follows a statement, and goes on where a statement does.
  | @lastStatement tokens tree htree ih =>
    intro closing rest hclosing
    rw [statementsToEnd, ih, Outcome.bind_ok, outcome_readBlock_of_end hclosing, Outcome.map_ok]
  | @nextStatement first others tree trees htree htrees ihFirst ihOthers =>
    intro closing rest hclosing
    rw [List.append_assoc, statementsToEnd, ihFirst, Outcome.bind_ok,
      outcome_readBlock_of_program htrees, ihOthers closing rest hclosing, Outcome.map_ok]

theorem outcome_readStatement {tokens : List Token} {tree : Statement}
    (h : IsStatement tokens tree) (rest : List Token) :
    (readStatement (tokens ++ rest)).outcome = ⟨.ok tree, rest⟩ :=
  Grammar.DerivesClause.isRead h rest

end Scriptlet
