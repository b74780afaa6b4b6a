import Scriptlet.Proofs.Grammar
import Scriptlet.Proofs.Syntax.Outcome
import Scriptlet.Syntax.ExpressionReading

/-!
# What the readers of expressions take

Everything that a reader of expressions takes belongs to a phrase of the grammar.

* `outcome_readRank_succ`, `chain_of_operator` and their companions say what each reader does.
* `reads_expression`, `reads_items`: what a reader takes is a phrase of the grammar or the beginning
  of one.
-/

namespace Scriptlet

open Grammar

/-! ## Outcomes of the readers -/

/-- `BinaryOp.ofRank?` accepts exactly the tokens that `Operator` allows at that rank. -/
theorem ofRank?_eq_some_iff {rank : Nat} {kind : Token.Kind} {op : BinaryOp} :
    BinaryOp.ofRank? rank kind = some op ↔ Operator rank kind op := by
  constructor
  · intro h
    rw [BinaryOp.ofRank?, Option.filter_eq_some_iff, beq_iff_eq] at h
    obtain ⟨hkind, rfl⟩ := h
    cases kind <;> cases hkind <;> constructor
  · rintro (_ | _ | _ | _ | _ | _ | _) <;> rfl

/-- The argument `start` of `readChain` serves its termination only: the outcome is the same
for every `start`. -/
theorem outcome_readChain_congr (rank : Nat) (left : Expression) (start start' tokens : List Token)
    (h : tokens.length < start.length) (h' : tokens.length < start'.length) :
    (readChain rank left start tokens h).outcome =
      (readChain rank left start' tokens h').outcome := by
  -- The start only bounds the number of tokens, so the induction is on what is left.
  induction hlength : tokens.length using Nat.strongRecOn generalizing left tokens with
  | _ length ih =>
    subst hlength
    rw [readChain.eq_def, readChain.eq_def rank left start']
    cases tokens with
    | nil => rfl
    | cons token rest =>
      cases hop : BinaryOp.ofRank? (rank + 1) token.kind with
      | none => simp only [hop, Reading.outcome_complete]
      | some op =>
        simp only [hop]
        cases readRank rank rest with
        | complete right after shorter => exact ih _ (Nat.lt_succ_of_lt shorter) _ _ _ _ rfl
        | refused expected after => rfl

theorem length_lt_length_comma_cons (tokens : List Token) :
    tokens.length < ((⟨.comma, "", 0⟩ : Token) :: tokens).length :=
  Nat.lt_succ_self _

/-- How `readChain` goes on behind the operand `left`, on an operator of rank `rank + 1`. The
start of the chain is filled in by one token in front, see `outcome_readChain_congr`. -/
def chain (rank : Nat) (left : Expression) (tokens : List Token) : Outcome Expression :=
  (readChain rank left (⟨.comma, "", 0⟩ :: tokens) tokens
    (length_lt_length_comma_cons tokens)).outcome

theorem chain_of_not_operator {rank : Nat} {tokens : List Token}
    (h : ∀ token ∈ tokens.head?, ∀ op, ¬ Operator (rank + 1) token.kind op) (left : Expression) :
    chain rank left tokens = ⟨.ok left, tokens⟩ := by
  rw [chain, readChain.eq_def]
  cases tokens with
  | nil => rfl
  | cons token rest =>
    have hnone : BinaryOp.ofRank? (rank + 1) token.kind = none := by
      rw [Option.eq_none_iff_forall_ne_some]
      intro op hop
      exact h token rfl op (ofRank?_eq_some_iff.mp hop)
    simp only [hnone, Reading.outcome_complete]

theorem chain_of_operator {rank : Nat} {token : Token} {op : BinaryOp}
    (h : Operator (rank + 1) token.kind op) (left : Expression) (rest : List Token) :
    chain rank left (token :: rest) =
      (readRank rank rest).outcome.bind fun right after =>
        chain rank (.binary op left right token.line) after := by
  rw [chain, readChain.eq_def]
  simp only [ofRank?_eq_some_iff.mpr h]
  cases readRank rank rest with
  | complete right after shorter => exact outcome_readChain_congr ..
  | refused expected after => rfl

theorem outcome_readRank_zero (tokens : List Token) :
    (readRank 0 tokens).outcome = (readPrimary tokens).outcome := by
  rw [readRank]

/-- An expression of rank `rank + 1` is one of rank `rank` and the `chain` behind it. -/
theorem outcome_readRank_succ (rank : Nat) (tokens : List Token) :
    (readRank (rank + 1) tokens).outcome = (readRank rank tokens).outcome.bind (chain rank) := by
  rw [readRank]
  cases readRank rank tokens with
  | complete left rest shorter => exact outcome_readChain_congr ..
  | refused expected rest => rfl

/-- What `readPrimary` does behind the identifier `name`: a call if a `.leftParen` follows,
and the name itself otherwise. -/
def afterName (name : String) (line : Nat) : List Token → Outcome Expression
  | [] => ⟨.ok (.identifier name line), []⟩
  | next :: rest =>
    if next.kind = .leftParen then
      (readItems .rightParen .argumentSeparator rest).outcome.map fun arguments =>
        .call name arguments line
    else ⟨.ok (.identifier name line), next :: rest⟩

theorem afterName_of_leftParen {next : Token} (h : next.kind = .leftParen) (name : String)
    (line : Nat) (rest : List Token) :
    afterName name line (next :: rest) =
      (readItems .rightParen .argumentSeparator rest).outcome.map fun arguments =>
        .call name arguments line := by
  rw [afterName, if_pos h]

theorem afterName_of_not_leftParen {tokens : List Token}
    (h : ∀ token ∈ tokens.head?, token.kind ≠ .leftParen) (name : String) (line : Nat) :
    afterName name line tokens = ⟨.ok (.identifier name line), tokens⟩ := by
  cases tokens with
  | nil => rfl
  | cons next rest => rw [afterName, if_neg (h next rfl)]

section

variable {token : Token} (rest : List Token)

theorem outcome_readPrimary_of_number {value : Int} (h : token.kind = .number value) :
    (readPrimary (token :: rest)).outcome = ⟨.ok (.literal value), rest⟩ := by
  rw [readPrimary.eq_def]
  simp only [h, Reading.outcome_map, outcome_takeToken, Outcome.map_ok]

theorem outcome_readPrimary_of_string {text : String} (h : token.kind = .string text) :
    (readPrimary (token :: rest)).outcome = ⟨.ok (.string text), rest⟩ := by
  rw [readPrimary.eq_def]
  simp only [h, Reading.outcome_map, outcome_takeToken, Outcome.map_ok]

theorem outcome_readPrimary_of_name {name : String} (h : token.kind = .identifier name) :
    (readPrimary (token :: rest)).outcome = afterName name token.line rest := by
  rw [readPrimary.eq_def]
  simp only [h]
  cases rest with
  | nil => rfl
  | cons next after =>
    by_cases hnext : next.kind = .leftParen
    · simp [afterName, hnext]
    · simp [afterName, hnext]

theorem outcome_readPrimary_of_leftBracket (h : token.kind = .leftBracket) :
    (readPrimary (token :: rest)).outcome =
      (readItems .rightBracket .elementSeparator rest).outcome.map .list := by
  rw [readPrimary.eq_def]
  simp only [h, Reading.outcome_widen, Reading.outcome_map]

theorem outcome_readPrimary_of_leftParen (h : token.kind = .leftParen) :
    (readPrimary (token :: rest)).outcome =
      (readRank 4 rest).outcome.bind fun inner after =>
        (expect .rightParen .groupClose after).outcome.map fun _ => inner := by
  rw [readPrimary.eq_def]
  simp only [h, Reading.outcome_widen, Reading.outcome_andThen, Reading.outcome_map]
  rfl

end

/-- The kinds of tokens that `readPrimary` accepts in first place. -/
def StartsExpression : Token.Kind → Prop
  | .number _ | .string _ | .identifier _ | .leftBracket | .leftParen => True
  | _ => False

/-- A phrase that `DerivesTerm` allows starts with a token of `StartsExpression`, unless
`term` is an empty list of items. -/
theorem Grammar.DerivesTerm.starts {tokens : List Token} {term : Term}
    (h : DerivesTerm tokens term) :
    match term with
    | .expression _ _ | .moreItems _ => ∃ token rest, tokens = token :: rest ∧
        StartsExpression token.kind
    | .items _ => ∀ token ∈ tokens.head?, StartsExpression token.kind := by
  induction h with
  | @number token _ h | @string token _ h | @name token _ h =>
    exact ⟨token, [], rfl, by rw [h]; trivial⟩
  | @call token _ _ _ inner _ hname => exact ⟨token, _, rfl, by rw [hname]; trivial⟩
  | @list opening _ _ _ hopening | @group opening _ _ _ hopening =>
    exact ⟨opening, _, rfl, by rw [hopening]; trivial⟩
  | operand _ ih | lastItem _ ih => exact ih
  | operation _ _ _ ih _ | nextItem _ _ _ ih _ =>
    obtain ⟨token, rest, rfl, hstarts⟩ := ih
    exact ⟨token, _, rfl, hstarts⟩
  | noItems => intro token htoken; cases htoken
  | someItems _ ih =>
    obtain ⟨token, rest, rfl, hstarts⟩ := ih
    rintro token' ⟨⟩
    exact hstarts

theorem outcome_readPrimary_of_not_starts {token : Token} (h : ¬ StartsExpression token.kind)
    (rest : List Token) :
    (readPrimary (token :: rest)).outcome = ⟨.error .expression, token :: rest⟩ := by
  rw [readPrimary.eq_def]
  cases hkind : token.kind <;> simp_all [StartsExpression]

theorem outcome_readMoreItems (close : Token.Kind) (expected : Expectation) (tokens : List Token) :
    (readMoreItems close expected tokens).outcome =
      (readRank 4 tokens).outcome.bind
        (afterElement close expected fun rest => (readMoreItems close expected rest).outcome) := by
  have hloosest : BinaryOp.loosestRank = 4 := rfl
  rw [readMoreItems.eq_def, hloosest]
  -- The reader tests for the comma and the closing token in the order of `afterElement`.
  cases readRank 4 tokens with
  | refused unread rest => rfl
  | complete item rest shorter =>
    cases rest with
    | nil => rfl
    | cons token rest =>
      simp only [Reading.outcome_complete, Outcome.bind_ok, afterElement]
      split
      · rfl
      · split
        · simp
        · rfl

theorem outcome_readItems_of_close {close : Token.Kind} {token : Token} (h : token.kind = close)
    (expected : Expectation) (rest : List Token) :
    (readItems close expected (token :: rest)).outcome = ⟨.ok [], rest⟩ := by
  rw [readItems.eq_def]
  simp [h]

theorem outcome_readItems_of_not_close {close : Token.Kind} {tokens : List Token}
    (h : ∀ token ∈ tokens.head?, token.kind ≠ close) (expected : Expectation) :
    (readItems close expected tokens).outcome = (readMoreItems close expected tokens).outcome := by
  rw [readItems.eq_def]
  cases tokens with
  | nil => rfl
  | cons token rest => simp [h token rfl]

/-! ## What the readers take -/

/-- Phrases of `language` up to and including a token of kind `close`, which the value does
not show. -/
def Enclosed {α : Type} (close : Token.Kind) (language : List Token → α → Prop)
    (tokens : List Token) (value : α) : Prop :=
  ∃ inner closing, tokens = inner ++ [closing] ∧ closing.kind = close ∧ language inner value

/-- The phrases of `DerivesTerm` for expressions of rank `rank`. -/
def Ranked (rank : Nat) (tokens : List Token) (tree : Expression) : Prop :=
  DerivesTerm tokens (.expression rank tree)

/-- The hypothesis of the induction on the number of tokens: `readRank` reads the language
`Ranked` on all lists with fewer than `bound` tokens. -/
def ReadsBelow (bound : Nat) : Prop :=
  ∀ rank tokens, tokens.length < bound →
    Reads (Ranked rank) (fun list => (readRank rank list).outcome) tokens

theorem exists_ranked (rank : Nat) : ∃ phrase tree, Ranked rank phrase tree := by
  induction rank with
  | zero => exact ⟨[sample (.number 0)], _, .number rfl⟩
  | succ rank ih =>
    obtain ⟨phrase, tree, h⟩ := ih
    exact ⟨phrase, tree, .operand h⟩

/-- The invariant of `chain`: if `before` is an expression `left` of rank `rank + 1`, then
`before` and what the chain takes are one, or the beginning of one. -/
theorem reads_chain {bound rank : Nat} (ih : ReadsBelow bound) {tokens : List Token}
    (hlength : tokens.length ≤ bound) {before : List Token} {left : Expression}
    (hleft : Ranked (rank + 1) before left) :
    Reads (fun phrase => Ranked (rank + 1) (before ++ phrase)) (chain rank left) tokens := by
  induction hn : tokens.length using Nat.strongRecOn generalizing tokens before left with
  | _ length ihChain =>
    subst hn
    -- The first token alone decides whether the chain goes on.
    by_cases hop : ∃ token ∈ tokens.head?, ∃ op, Operator (rank + 1) token.kind op
    · obtain ⟨token, htoken, op, hop⟩ := hop
      obtain ⟨rest, rfl⟩ := List.head?_eq_some_iff.mp htoken
      -- The operator and its operand become part of the left operand of what follows.
      refine .cons ?_ (chain_of_operator hop left)
      refine .bind (ih rank rest hlength) ?_ ?_
      · rintro used right after rfl hright -
        have hnext :
            Ranked (rank + 1) (before ++ token :: used) (.binary op left right token.line) :=
          .operation hleft hop hright
        have hshort : after.length < (token :: (used ++ after)).length := by
          simp only [List.length_cons, List.length_append]
          omega
        have hchain := ihChain _ hshort (Nat.le_trans (Nat.le_of_lt hshort) hlength) hnext rfl
        simpa only [List.append_assoc, List.cons_append] using hchain
      · intro used right hright
        have hwhole : Ranked (rank + 1) (before ++ token :: used)
            (.binary op left right token.line) := .operation hleft hop hright
        exact ⟨[], _, by simpa using hwhole⟩
    · refine .of_head (.ok left) (fun list hlist => ?_) (by simpa [Fits] using hleft)
      refine chain_of_not_operator (fun token htoken op h => hop ?_) left
      exact ⟨token, hlist ▸ htoken, op, h⟩

/-- On fewer than `bound` tokens, `readMoreItems` reads what `DerivesTerm` has for
`.moreItems`, up to `close`. -/
theorem reads_moreItems_below {bound : Nat} (ih : ReadsBelow bound) (close : Token.Kind)
    (expected : Expectation) {tokens : List Token} (hlength : tokens.length < bound) :
    Reads (Enclosed close fun phrase trees => DerivesTerm phrase (.moreItems trees))
      (fun list => (readMoreItems close expected list).outcome) tokens := by
  induction hn : tokens.length using Nat.strongRecOn generalizing tokens with
  | _ length ihItems =>
    subst hn
    refine .congr ?_ fun list _ => outcome_readMoreItems close expected list
    have hlast : ∀ used item, Ranked 4 used item → ∀ closing : Token, closing.kind = close →
        Enclosed close (fun phrase trees => DerivesTerm phrase (.moreItems trees))
          (used ++ [closing]) [item] :=
      fun used item hitem closing hclosing => ⟨used, closing, rfl, hclosing, .lastItem hitem⟩
    refine .bind (ih 4 tokens hlength) ?_ fun used item hitem =>
      ⟨_, _, hlast used item hitem (sample close) rfl⟩
    rintro used item after rfl hitem -
    refine .afterElement expected after (hlast used item hitem) ?_
    rintro comma rest hcomma rfl
    -- The comma has been taken, so fewer tokens are left for the other items.
    have hshort : rest.length < (used ++ comma :: rest).length := by
      simp only [List.length_cons, List.length_append]
      omega
    refine (ihItems _ hshort (Nat.lt_trans hshort hlength) rfl).mono ?_
    rintro phrase trees ⟨inner, closing, rfl, hclosing, htrees⟩
    exact ⟨used ++ comma :: inner, closing, by simp, hclosing, .nextItem hitem hcomma htrees⟩

/-- On fewer than `bound` tokens, `readItems` reads what `DerivesTerm` has for `.items`, up to
`close`. -/
theorem reads_items_below {bound : Nat} (ih : ReadsBelow bound) (close : Token.Kind)
    (expected : Expectation) {tokens : List Token} (hlength : tokens.length < bound) :
    Reads (Enclosed close fun phrase trees => DerivesTerm phrase (.items trees))
      (fun list => (readItems close expected list).outcome) tokens := by
  by_cases hclose : ∃ token ∈ tokens.head?, token.kind = close
  · obtain ⟨token, htoken, hkind⟩ := hclose
    obtain ⟨rest, rfl⟩ := List.head?_eq_some_iff.mp htoken
    refine .cons ?_ (outcome_readItems_of_close hkind expected)
    exact .of_head (.ok []) (fun _ _ => rfl) ⟨[], token, rfl, hkind, .noItems⟩
  · -- The first token does not close the list, so there is an item at least.
    have hmore : Reads (Enclosed close fun phrase trees => DerivesTerm phrase (.items trees))
        (fun list => (readMoreItems close expected list).outcome) tokens := by
      refine (reads_moreItems_below ih close expected hlength).mono ?_
      rintro phrase trees ⟨inner, closing, rfl, hclosing, htrees⟩
      exact ⟨inner, closing, rfl, hclosing, .someItems htrees⟩
    refine hmore.congr fun list hlist => outcome_readItems_of_not_close ?_ expected
    intro token htoken hkind
    exact hclose ⟨token, hlist ▸ htoken, hkind⟩

/-- Behind the token of a name, `afterName` reads the rest of an expression of rank zero:
nothing, or the arguments of a call. -/
theorem reads_afterName {rest : List Token} (ih : ReadsBelow rest.length) {token : Token}
    {name : String} (hname : token.kind = .identifier name) :
    Reads (fun phrase => Ranked 0 (token :: phrase)) (afterName name token.line) rest := by
  by_cases hcall : ∃ opening ∈ rest.head?, opening.kind = .leftParen
  · obtain ⟨opening, hhead, hopening⟩ := hcall
    obtain ⟨after, rfl⟩ := List.head?_eq_some_iff.mp hhead
    refine .cons ?_ (afterName_of_leftParen hopening name token.line)
    refine .map (reads_items_below ih _ _ (Nat.lt_succ_self _)) ?_
    rintro phrase arguments ⟨inner, closing, rfl, hclosing, harguments⟩
    exact .call hname hopening harguments hclosing
  · -- One token behind the name is enough to see that it is no call.
    refine .of_head (.ok (.identifier name token.line)) (fun list hlist => ?_) (.name hname)
    refine afterName_of_not_leftParen (fun opening hhead hopening => hcall ?_) name token.line
    exact ⟨opening, hlist ▸ hhead, hopening⟩

/-- Behind a `.leftParen`, an expression of rank four and the `.rightParen` complete one of
rank zero. -/
theorem reads_group {rest : List Token} (ih : ReadsBelow (rest.length + 1)) {token : Token}
    (hopening : token.kind = .leftParen) :
    Reads (fun phrase => Ranked 0 (token :: phrase))
      (fun list => (readRank 4 list).outcome.bind fun inner after =>
        (expect .rightParen .groupClose after).outcome.map fun _ => inner) rest := by
  have hclosed : ∀ used inner, Ranked 4 used inner → ∀ closing : Token,
      closing.kind = .rightParen → Ranked 0 (token :: (used ++ [closing])) inner :=
    fun used inner hinner closing hclosing => .group hopening hinner hclosing
  refine .bind (ih 4 rest (Nat.lt_succ_self _)) ?_ ?_
  · rintro used inner after rfl hinner -
    exact .expect_map (hclosed used inner hinner) .groupClose after
  · intro used inner hinner
    exact ⟨_, inner, hclosed used inner hinner (sample .rightParen) rfl⟩

theorem reads_primary_below {tokens : List Token} (ih : ReadsBelow tokens.length) :
    Reads (Ranked 0) (fun list => (readPrimary list).outcome) tokens := by
  cases tokens with
  | nil => exact .refused_nil (by rw [readPrimary]; rfl) (exists_ranked 0)
  | cons token rest =>
    -- The first token decides which of the five forms is read, or that none is.
    by_cases hstarts : StartsExpression token.kind
    · cases hkind : token.kind with
      | number value =>
        refine .cons ?_ (fun list => outcome_readPrimary_of_number list hkind)
        exact .of_head (.ok (.literal value)) (fun _ _ => rfl) (.number hkind)
      | string text =>
        refine .cons ?_ (fun list => outcome_readPrimary_of_string list hkind)
        exact .of_head (.ok (.string text)) (fun _ _ => rfl) (.string hkind)
      | identifier name =>
        have ihRest : ReadsBelow rest.length :=
          fun rank list h => ih rank list (Nat.lt_succ_of_lt h)
        exact .cons (reads_afterName ihRest hkind)
          (fun list => outcome_readPrimary_of_name list hkind)
      | leftBracket =>
        refine .cons ?_ (fun list => outcome_readPrimary_of_leftBracket list hkind)
        refine .map (reads_items_below ih _ _ (Nat.lt_succ_self _)) ?_
        rintro phrase elements ⟨inner, closing, rfl, hclosing, helements⟩
        exact .list hkind helements hclosing
      | leftParen =>
        exact .cons (reads_group ih hkind)
          (fun list => outcome_readPrimary_of_leftParen list hkind)
      | _ => rw [hkind] at hstarts; exact hstarts.elim
    · exact .refused_cons (outcome_readPrimary_of_not_starts hstarts) (exists_ranked 0)

/-- On all tokens, `readRank rank` reads the language `Ranked rank`. -/
theorem reads_rank (rank : Nat) (tokens : List Token) :
    Reads (Ranked rank) (fun list => (readRank rank list).outcome) tokens := by
  induction hn : tokens.length using Nat.strongRecOn generalizing rank tokens with
  | _ length ih =>
    subst hn
    have ihBelow : ReadsBelow tokens.length := fun rank list h => ih _ h rank list rfl
    -- A chain starts with an operand of the next tighter rank on the same tokens.
    induction rank with
    | zero => simpa only [outcome_readRank_zero] using reads_primary_below ihBelow
    | succ rank ihRank =>
      simp only [outcome_readRank_succ]
      refine .bind ihRank ?_ ?_
      · rintro used left rest htokens hleft hread
        have hrest : rest.length ≤ tokens.length := by
          rw [htokens, List.length_append]
          exact Nat.le_add_left ..
        exact reads_chain ihBelow hrest (.operand hleft)
      · intro used left hleft
        have hwhole : Ranked (rank + 1) used left := .operand hleft
        exact ⟨[], left, by simpa using hwhole⟩

/-- On all tokens, `readExpression` reads the language `DerivesExpression`. -/
theorem reads_expression (tokens : List Token) :
    Reads DerivesExpression (fun list => (readExpression list).outcome) tokens :=
  reads_rank 4 tokens

/-- On all tokens, `readItems` reads the language of items enclosed by `close`, whatever it
was told to expect. -/
theorem reads_items (close : Token.Kind) (expected : Expectation) (tokens : List Token) :
    Reads (Enclosed close fun phrase trees => DerivesTerm phrase (.items trees))
      (fun list => (readItems close expected list).outcome) tokens :=
  reads_items_below (fun rank list _ => reads_rank rank list) close expected (Nat.lt_succ_self _)

end Scriptlet
