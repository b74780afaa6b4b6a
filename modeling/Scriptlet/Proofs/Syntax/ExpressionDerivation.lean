import Scriptlet.Proofs.Syntax.ExpressionReading

/-!
# Every expression of the grammar is read

A phrase of the grammar is read as its tree, when no token follows that could go on with it.

* `Follows rank tokens rest`: what is left behind the tokens does not go on with them as an
  expression of the rank.
* `DerivesTerm.isRead` is the induction on derivations, with the state of a chain as the invariant
  of an expression of positive rank.
* `outcome_readExpression` and `outcome_readArguments` are its two uses.
-/

namespace Scriptlet

open Grammar

/-- The last of `tokens` is a name. -/
def EndsInName (tokens : List Token) : Prop :=
  ∃ last ∈ tokens.getLast?, ∃ name, last.kind = .identifier name

theorem EndsInName.append {tokens : List Token} (h : EndsInName tokens) (before : List Token) :
    EndsInName (before ++ tokens) := by
  obtain ⟨last, hlast, hname⟩ := h
  exact ⟨last, by rw [List.getLast?_append, Option.mem_def.mp hlast]; rfl, hname⟩

/-- What is left behind an expression of the rank `rank` does not go on with it: it starts
neither with an operator of the rank or of a tighter one nor, behind a name, with an opening
parenthesis. -/
def Follows (rank : Nat) (tokens rest : List Token) : Prop :=
  ∀ token ∈ rest.head?, (token.kind = .leftParen → ¬ EndsInName tokens) ∧
    ∀ rank' ≤ rank, ∀ op, ¬ Operator rank' token.kind op

theorem Follows.mono {rank rank' : Nat} {tokens rest : List Token} (h : Follows rank tokens rest)
    (hle : rank' ≤ rank) : Follows rank' tokens rest :=
  fun token htoken =>
    ⟨(h token htoken).1, fun r hr op => (h token htoken).2 r (Nat.le_trans hr hle) op⟩

/-- What follows an expression also follows its last operand. -/
theorem Follows.operand {rank : Nat} {before tokens rest : List Token}
    (h : Follows rank (before ++ tokens) rest) : Follows rank tokens rest :=
  fun token htoken =>
    ⟨fun hkind hname => (h token htoken).1 hkind (hname.append before), (h token htoken).2⟩

/-- An operator follows every expression of a tighter rank. -/
theorem follows_of_operator {rank : Nat} {token : Token} {op : BinaryOp}
    (h : Operator (rank + 1) token.kind op) (tokens rest : List Token) :
    Follows rank tokens (token :: rest) := by
  rintro token' ⟨⟩
  refine ⟨fun hkind _ => ?_, fun rank' hle op' h' => ?_⟩
  · rw [hkind] at h
    cases h
  · -- A kind of token spells operators of one rank only.
    have hrank : rank' = rank + 1 := by
      generalize token.kind = kind at h h'
      cases h <;> cases h' <;> rfl
    omega

/-- The kinds of tokens that can stand behind an expression without being an operator. -/
def EndsExpression : Token.Kind → Prop
  | .rightParen | .rightBracket | .comma | .semicolon => True
  | _ => False

/-- A token of a kind that `EndsExpression` follows expressions of every rank. -/
theorem follows_of_endsExpression {token : Token} (h : EndsExpression token.kind) (rank : Nat)
    (tokens rest : List Token) : Follows rank tokens (token :: rest) := by
  rintro token' ⟨⟩
  generalize token.kind = kind at h
  refine ⟨fun hkind _ => ?_, fun rank' _ op hop => ?_⟩
  · rw [hkind] at h
    exact h
  · cases hop <;> exact h

/-- The closing token of arguments and lists. -/
def Closes (close : Token.Kind) : Prop :=
  close = .rightParen ∨ close = .rightBracket

theorem Closes.ne_of_starts {close kind : Token.Kind} (h : Closes close)
    (hstarts : StartsExpression kind) : kind ≠ close := by
  rintro rfl
  rcases h with rfl | rfl <;> exact hstarts

/-- How a phrase is read. An expression of positive rank leaves its chain open: where it ends,
the reader has its tree as the left operand of whatever operator may follow. -/
def Grammar.Term.IsRead (tokens : List Token) : Term → Prop
  | .expression 0 tree => ∀ rest, Follows 0 tokens rest →
    (readRank 0 (tokens ++ rest)).outcome = ⟨.ok tree, rest⟩
  | .expression (rank + 1) tree => ∀ rest, Follows rank tokens rest →
    (readRank (rank + 1) (tokens ++ rest)).outcome = chain rank tree rest
  | .items trees => ∀ close expected closing rest, Closes close → closing.kind = close →
    (readItems close expected (tokens ++ closing :: rest)).outcome = ⟨.ok trees, rest⟩
  | .moreItems trees => ∀ close expected closing rest, Closes close → closing.kind = close →
    (readMoreItems close expected (tokens ++ closing :: rest)).outcome = ⟨.ok trees, rest⟩

/-- The chain of an expression ends in front of what `Follows` it. -/
theorem Grammar.Term.IsRead.outcome {tokens : List Token} {rank : Nat} {tree : Expression}
    (h : (Term.expression rank tree).IsRead tokens) {rest : List Token}
    (hrest : Follows rank tokens rest) :
    (readRank rank (tokens ++ rest)).outcome = ⟨.ok tree, rest⟩ := by
  cases rank with
  | zero => exact h rest hrest
  | succ rank =>
    rw [h rest (hrest.mono (Nat.le_succ rank))]
    exact chain_of_not_operator (fun token htoken => (hrest token htoken).2 _ (Nat.le_refl _)) tree

/-- A phrase of the grammar is read, as `Term.IsRead` says. By induction on the derivation. -/
theorem Grammar.DerivesTerm.isRead {tokens : List Token} {term : Term}
    (h : DerivesTerm tokens term) : term.IsRead tokens := by
  induction h with
  | number hkind =>
    intro rest _
    rw [outcome_readRank_zero]
    exact outcome_readPrimary_of_number rest hkind
  | string hkind =>
    intro rest _
    rw [outcome_readRank_zero]
    exact outcome_readPrimary_of_string rest hkind
  | @name token name hname =>
    intro rest hrest
    rw [outcome_readRank_zero, List.singleton_append, outcome_readPrimary_of_name rest hname]
    refine afterName_of_not_leftParen (fun next hnext hkind => ?_) name token.line
    exact (hrest next hnext).1 hkind ⟨token, rfl, name, hname⟩
  | @call token opening closing name inner arguments hname hopening _ hclosing ih =>
    intro rest _
    rw [outcome_readRank_zero, List.cons_append, List.cons_append, List.append_assoc,
      outcome_readPrimary_of_name _ hname, afterName_of_leftParen hopening, List.singleton_append,
      ih _ _ _ _ (.inl rfl) hclosing, Outcome.map_ok]
  | @list opening closing inner elements hopening _ hclosing ih =>
    intro rest _
    rw [outcome_readRank_zero, List.cons_append, List.append_assoc,
      outcome_readPrimary_of_leftBracket _ hopening, List.singleton_append,
      ih _ _ _ _ (.inr rfl) hclosing, Outcome.map_ok]
  | @group opening closing inner tree hopening _ hclosing ih =>
    intro rest _
    have hfollows : Follows 4 inner (closing :: rest) :=
      follows_of_endsExpression (by rw [hclosing]; trivial) 4 inner rest
    rw [outcome_readRank_zero, List.cons_append, List.append_assoc,
      outcome_readPrimary_of_leftParen _ hopening, List.singleton_append, ih.outcome hfollows,
      Outcome.bind_ok, outcome_expect_of_kind hclosing, Outcome.map_ok]
  | @operand rank tokens tree _ ih =>
    intro rest hrest
    rw [outcome_readRank_succ, ih.outcome hrest, Outcome.bind_ok]
  | @operation rank before after token op left right _ hop _ ihLeft ihRight =>
    intro rest hrest
    rw [List.append_cons] at hrest
    -- The chain is in front of its last operator when the left operand is read.
    rw [List.append_assoc, List.cons_append, ihLeft _ (follows_of_operator hop before _),
      chain_of_operator hop, ihRight.outcome hrest.operand, Outcome.bind_ok]
  | noItems =>
    intro close expected closing rest _ hclosing
    exact outcome_readItems_of_close hclosing expected rest
  | @someItems tokens trees htrees ih =>
    intro close expected closing rest hclose hclosing
    -- An item does not start with the closing token, so the reader goes on to the items.
    obtain ⟨first, after, rfl, hstarts⟩ := htrees.starts
    rw [outcome_readItems_of_not_close ?_ expected]
    · exact ih close expected closing rest hclose hclosing
    · rintro token ⟨⟩
      exact hclose.ne_of_starts hstarts
  | @lastItem tokens tree _ ih =>
    intro close expected closing rest hclose hclosing
    have hends : EndsExpression closing.kind := by
      rw [hclosing]
      rcases hclose with rfl | rfl <;> trivial
    rw [outcome_readMoreItems, ih.outcome (follows_of_endsExpression hends 4 tokens rest),
      Outcome.bind_ok, afterElement_of_close _ _ _ _ hclosing]
  | @nextItem first others comma tree trees _ hcomma _ ihFirst ihOthers =>
    intro close expected closing rest hclose hclosing
    have hends : EndsExpression comma.kind := by rw [hcomma]; trivial
    have hne : comma.kind ≠ close := by
      rw [hcomma]
      rcases hclose with rfl | rfl <;> decide
    rw [outcome_readMoreItems, List.append_assoc, List.cons_append,
      ihFirst.outcome (follows_of_endsExpression hends 4 first _), Outcome.bind_ok,
      afterElement_of_comma _ _ _ _ hne hcomma, ihOthers _ _ _ _ hclose hclosing, Outcome.map_ok]

/-- An expression of the grammar is read as its tree in front of a token that
`EndsExpression`. -/
theorem outcome_readExpression {tokens : List Token} {tree : Expression}
    (h : DerivesExpression tokens tree) {token : Token} (hends : EndsExpression token.kind)
    (rest : List Token) :
    (readExpression (tokens ++ token :: rest)).outcome = ⟨.ok tree, token :: rest⟩ :=
  (Grammar.DerivesTerm.isRead h).outcome (follows_of_endsExpression hends 4 tokens rest)

/-- Arguments of the grammar are read as their trees. -/
theorem outcome_readArguments {tokens : List Token} {trees : List Expression}
    (h : DerivesTerm tokens (.items trees)) {closing : Token}
    (hclosing : closing.kind = .rightParen) (rest : List Token) :
    (readArguments (tokens ++ closing :: rest)).outcome = ⟨.ok trees, rest⟩ :=
  h.isRead _ _ _ _ (.inl rfl) hclosing

end Scriptlet
