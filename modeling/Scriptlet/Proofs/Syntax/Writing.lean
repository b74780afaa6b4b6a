import Scriptlet.Proofs.Lines
import Scriptlet.Proofs.Syntax.Program

/-!
# Writing trees as tokens

A tree can be written as tokens in many ways: an operand needs parentheses where it binds too
loosely for its operator, and any expression may have more of them. Whatever way is taken, the
grammar derives a tree that differs in its lines only, and the grammar derives nothing else.

* `WritesTerm kinds term` and `WritesClause kinds clause` say that tokens of these kinds write a
  phrase.
* `WritesTerm.isDerived`: what is written is derived, up to lines.
* `DerivesTerm.writes` and `DerivesClause.writes`: what is derived is written.
-/

namespace Scriptlet.Grammar

/-- The relation `WritesTerm kinds term` says that tokens of these `kinds` write the phrase
`term`. The rank in `.expression rank tree` is that of the operator that stands outside all
parentheses, or zero if there is none. -/
inductive WritesTerm : List Token.Kind → Term → Prop where
  | number {value : Int} : WritesTerm [.number value] (.expression 0 (.literal value))
  | string {text : String} : WritesTerm [.string text] (.expression 0 (.string text))
  | name {name : String} {line : Nat} :
    WritesTerm [.identifier name] (.expression 0 (.identifier name line))
  | call {name : String} {inner : List Token.Kind} {arguments : List Expression} {line : Nat}
    (harguments : WritesTerm inner (.items arguments)) :
    WritesTerm (.identifier name :: .leftParen :: (inner ++ [.rightParen]))
      (.expression 0 (.call name arguments line))
  | list {inner : List Token.Kind} {elements : List Expression}
    (helements : WritesTerm inner (.items elements)) :
    WritesTerm (.leftBracket :: (inner ++ [.rightBracket])) (.expression 0 (.list elements))
  /-- Every expression may have a pair of parentheses around it. -/
  | group {rank : Nat} {inner : List Token.Kind} {tree : Expression}
    (htree : WritesTerm inner (.expression rank tree)) :
    WritesTerm (.leftParen :: (inner ++ [.rightParen])) (.expression 0 tree)
  /-- A left operand may bind as loosely as its operator, a right operand must bind more tightly. -/
  | operation {rank leftRank rightRank : Nat} {before after : List Token.Kind} {kind : Token.Kind}
    {op : BinaryOp} {left right : Expression} {line : Nat} (hop : Operator rank kind op)
    (hleft : WritesTerm before (.expression leftRank left)) (hleftRank : leftRank ≤ rank)
    (hright : WritesTerm after (.expression rightRank right)) (hrightRank : rightRank < rank) :
    WritesTerm (before ++ kind :: after) (.expression rank (.binary op left right line))
  | noItems : WritesTerm [] (.items [])
  | someItems {kinds : List Token.Kind} {trees : List Expression}
    (htrees : WritesTerm kinds (.moreItems trees)) : WritesTerm kinds (.items trees)
  | lastItem {rank : Nat} {kinds : List Token.Kind} {tree : Expression}
    (htree : WritesTerm kinds (.expression rank tree)) : WritesTerm kinds (.moreItems [tree])
  | nextItem {rank : Nat} {first rest : List Token.Kind} {tree : Expression}
    {trees : List Expression} (htree : WritesTerm first (.expression rank tree))
    (htrees : WritesTerm rest (.moreItems trees)) :
    WritesTerm (first ++ .comma :: rest) (.moreItems (tree :: trees))

/-- Tokens of these `kinds` write the expression, whatever the rank of its outermost operator. -/
def WritesExpression (kinds : List Token.Kind) (tree : Expression) : Prop :=
  ∃ rank, WritesTerm kinds (.expression rank tree)

/-- The kinds of tokens that write `names`, with `.comma` between them. -/
def nameKinds (names : List String) : List Token.Kind :=
  (names.map .identifier).intersperse .comma

/-- The relation `WritesClause kinds clause` says that tokens of these `kinds` write the
phrase `clause`. The statement `.evaluate` is written only for calls, and without parentheses
around the call. A body of one expression has the form `shortBody`; it is the only form of a
body whose expression is no call. -/
inductive WritesClause : List Token.Kind → Clause → Prop where
  | read {name : String} {line : Nat} :
    WritesClause [.identifier name, .assign, .read, .leftParen, .rightParen, .semicolon]
      (.statement (.read name line))
  | random {name : String} {inner : List Token.Kind} {bound : Expression} {line : Nat}
    (hbound : WritesExpression inner bound) :
    WritesClause (.identifier name ::
      ([.assign, .random, .leftParen] ++ inner ++ [.rightParen, .semicolon]))
      (.statement (.random name bound line))
  | assign {name : String} {inner : List Token.Kind} {value : Expression} {line : Nat}
    (hvalue : WritesExpression inner value) :
    WritesClause (.identifier name :: ([.assign] ++ inner ++ [.semicolon]))
      (.statement (.assign name value line))
  | write {inner : List Token.Kind} {value : Expression} {line : Nat}
    (hvalue : WritesExpression inner value) :
    WritesClause (.write :: ([.leftParen] ++ inner ++ [.rightParen, .semicolon]))
      (.statement (.write value line))
  | call {name : String} {inner : List Token.Kind} {arguments : List Expression} {line line' : Nat}
    (harguments : WritesTerm inner (.items arguments)) :
    WritesClause (.identifier name :: ([.leftParen] ++ inner ++ [.rightParen, .semicolon]))
      (.statement (.evaluate (.call name arguments line) line'))
  | define {name : String} {parameters : List String} {rest : List Token.Kind}
    {body : List Statement} {line : Nat} (hbody : WritesClause rest (.body body)) :
    WritesClause (.function ::
      ([.identifier name, .leftParen] ++ nameKinds parameters ++ [.rightParen] ++ rest))
      (.statement (.define name parameters body line))
  | shortBody {inner : List Token.Kind} {value : Expression} {line : Nat}
    (hvalue : WritesExpression inner value) :
    WritesClause ([.comma, .colon] ++ inner ++ [.semicolon]) (.body [.evaluate value line])
  | block {inner : List Token.Kind} {body : List Statement}
    (hbody : WritesClause inner (.statements body)) :
    WritesClause ([.colon] ++ inner ++ [.endBlock]) (.body body)
  | lastStatement {kinds : List Token.Kind} {tree : Statement}
    (htree : WritesClause kinds (.statement tree)) : WritesClause kinds (.statements [tree])
  | nextStatement {first rest : List Token.Kind} {tree : Statement} {trees : List Statement}
    (htree : WritesClause first (.statement tree))
    (htrees : WritesClause rest (.statements trees)) :
    WritesClause (first ++ rest) (.statements (tree :: trees))

/-- Tokens of these `kinds` write the program. -/
def WritesProgram (kinds : List Token.Kind) (program : Program) : Prop :=
  WritesClause kinds (.statements program)

/-! ## What is derived is written -/

/-- What `DerivesTerm` derives as an expression of some rank, `WritesTerm` writes with an
outermost operator of at most that rank. -/
theorem DerivesTerm.writes {tokens : List Token} {term : Term} (h : DerivesTerm tokens term) :
    match term with
    | .expression rank tree =>
      ∃ rank' ≤ rank, WritesTerm (tokens.map Token.kind) (.expression rank' tree)
    | .items trees => WritesTerm (tokens.map Token.kind) (.items trees)
    | .moreItems trees => WritesTerm (tokens.map Token.kind) (.moreItems trees) := by
  induction h with
  | number h => exact ⟨0, Nat.le_refl 0, by rw [List.map_singleton, h]; exact .number⟩
  | string h => exact ⟨0, Nat.le_refl 0, by rw [List.map_singleton, h]; exact .string⟩
  | name h => exact ⟨0, Nat.le_refl 0, by rw [List.map_singleton, h]; exact .name⟩
  | call hname hopening _ hclosing ih =>
    refine ⟨0, Nat.le_refl 0, ?_⟩
    rw [List.map_cons, List.map_cons, List.map_append, List.map_singleton, hname, hopening,
      hclosing]
    exact .call ih
  | list hopening _ hclosing ih =>
    refine ⟨0, Nat.le_refl 0, ?_⟩
    rw [List.map_cons, List.map_append, List.map_singleton, hopening, hclosing]
    exact .list ih
  | group hopening _ hclosing ih =>
    obtain ⟨rank, -, hinner⟩ := ih
    refine ⟨0, Nat.le_refl 0, ?_⟩
    rw [List.map_cons, List.map_append, List.map_singleton, hopening, hclosing]
    exact .group hinner
  | operand _ ih =>
    -- A chain of one operand has no operator of its rank.
    obtain ⟨rank, hrank, htree⟩ := ih
    exact ⟨rank, Nat.le_succ_of_le hrank, htree⟩
  | operation _ hop _ ihleft ihright =>
    obtain ⟨leftRank, hleftRank, hleft⟩ := ihleft
    obtain ⟨rightRank, hrightRank, hright⟩ := ihright
    refine ⟨_, Nat.le_refl _, ?_⟩
    rw [List.map_append, List.map_cons]
    exact .operation hop hleft hleftRank hright (Nat.lt_succ_of_le hrightRank)
  | noItems => exact .noItems
  | someItems _ ih => exact .someItems ih
  | lastItem _ ih =>
    obtain ⟨rank, -, htree⟩ := ih
    exact .lastItem htree
  | nextItem _ hcomma _ ih ihrest =>
    obtain ⟨rank, -, htree⟩ := ih
    rw [List.map_append, List.map_cons, hcomma]
    exact .nextItem htree ihrest

theorem DerivesExpression.writes {tokens : List Token} {tree : Expression}
    (h : DerivesExpression tokens tree) : WritesExpression (tokens.map Token.kind) tree := by
  obtain ⟨rank, -, htree⟩ := DerivesTerm.writes h
  exact ⟨rank, htree⟩

theorem DerivesParameters.map_kind {tokens : List Token} {names : List String}
    (h : DerivesParameters tokens names) : tokens.map Token.kind = nameKinds names := by
  rcases h with _ | ⟨hnames, -⟩
  · rfl
  · induction hnames with
    | last h => rw [List.map_singleton, h]; rfl
    | next h hcomma hnames ih =>
      rw [List.map_cons, List.map_cons, h, hcomma, ih]
      cases hnames <;> rfl

/-- What `DerivesClause` derives from `tokens`, the kinds of these tokens write. -/
theorem DerivesClause.writes {tokens : List Token} {clause : Clause}
    (h : DerivesClause tokens clause) : WritesClause (tokens.map Token.kind) clause := by
  -- Each rule of the grammar has a rule of the same name for writing.
  induction h with
  | read hname hafter =>
    rw [List.map_cons, hname, hafter]
    exact .read
  | random hname hbefore hbound hafter =>
    rw [List.map_cons, List.map_append, List.map_append, hname, hbefore, hafter]
    exact .random hbound.writes
  | assign hname hbefore hvalue hafter =>
    rw [List.map_cons, List.map_append, List.map_append, hname, hbefore, hafter]
    exact .assign hvalue.writes
  | write hkeyword hbefore hvalue hafter =>
    rw [List.map_cons, List.map_append, List.map_append, hkeyword, hbefore, hafter]
    exact .write hvalue.writes
  | call hname hbefore harguments hafter =>
    rw [List.map_cons, List.map_append, List.map_append, hname, hbefore, hafter]
    exact .call harguments.writes
  | define hkeyword hbefore hparameters hafter _ ih =>
    rw [List.map_cons, List.map_append, List.map_append, List.map_append, hkeyword, hbefore,
      hparameters.map_kind, hafter]
    exact .define ih
  | shortBody hbefore hvalue hafter =>
    rw [List.map_append, List.map_append, hbefore, hafter]
    exact .shortBody hvalue.writes
  | block hbefore _ hafter ih =>
    rw [List.map_append, List.map_append, hbefore, hafter]
    exact .block ih
  | lastStatement _ ih => exact .lastStatement ih
  | nextStatement _ _ ih ihrest =>
    rw [List.map_append]
    exact .nextStatement ih ihrest

/-! ## What is written is derived -/

theorem Spells.unclose {tokens : List Token} {kinds : List Token.Kind} {kind : Token.Kind}
    (h : Spells tokens (kinds ++ [kind])) :
    ∃ inner closing, tokens = inner ++ [closing] ∧ Spells inner kinds ∧ closing.kind = kind := by
  obtain ⟨inner, last, rfl, hinner, hlast⟩ := List.map_eq_append_iff.mp h
  obtain ⟨closing, rfl, hclosing⟩ := Spells.exists_eq_singleton hlast
  exact ⟨inner, closing, rfl, hinner, hclosing⟩

theorem Spells.enclosed {tokens : List Token} {before inner after : List Token.Kind}
    (h : Spells tokens (before ++ inner ++ after)) :
    ∃ front middle back, tokens = front ++ middle ++ back ∧ Spells front before ∧
      Spells middle inner ∧ Spells back after := by
  obtain ⟨_, back, rfl, hrest, hback⟩ := List.map_eq_append_iff.mp h
  obtain ⟨front, middle, rfl, hfront, hmiddle⟩ := List.map_eq_append_iff.mp hrest
  exact ⟨front, middle, back, rfl, hfront, hmiddle, hback⟩

/-- In the grammar, an expression is also one of every higher rank. -/
theorem DerivesTerm.of_le {rank rank' : Nat} {tokens : List Token} {tree : Expression}
    (h : DerivesTerm tokens (.expression rank tree)) (hle : rank ≤ rank') :
    DerivesTerm tokens (.expression rank' tree) := by
  induction hle with
  | refl => exact h
  | step _ ih => exact .operand ih

/-- The rank of `WritesTerm` is at most four, the rank of `++`. -/
theorem WritesTerm.rank_le {rank : Nat} {kinds : List Token.Kind} {tree : Expression}
    (h : WritesTerm kinds (.expression rank tree)) : rank ≤ 4 := by
  rcases h with _ | _ | _ | _ | _ | _ | @⟨_, _, _, _, _, _, _, _, _, _, hop, _⟩
  case operation => rcases hop <;> decide
  all_goals exact Nat.zero_le 4

/-- Some tree that `DerivesTerm` has for `tokens` differs from `term` in its lines only. -/
def Term.IsDerived (tokens : List Token) : Term → Prop
  | .expression rank tree => ∃ tree', DerivesTerm tokens (.expression rank tree') ∧
    tree'.mapLines (fun _ => 0) = tree.mapLines (fun _ => 0)
  | .items trees => ∃ trees', DerivesTerm tokens (.items trees') ∧
    Expression.mapLinesAll (fun _ => 0) trees' = Expression.mapLinesAll (fun _ => 0) trees
  | .moreItems trees => ∃ trees', DerivesTerm tokens (.moreItems trees') ∧
    Expression.mapLinesAll (fun _ => 0) trees' = Expression.mapLinesAll (fun _ => 0) trees

/-- Tokens that write `term`, in the sense of `WritesTerm`, derive it up to lines. -/
theorem WritesTerm.isDerived {kinds : List Token.Kind} {term : Term} (h : WritesTerm kinds term)
    {tokens : List Token} (htokens : Spells tokens kinds) : term.IsDerived tokens := by
  induction h generalizing tokens with
  | number =>
    obtain ⟨token, rfl, hkind⟩ := htokens.exists_eq_singleton
    exact ⟨_, .number hkind, rfl⟩
  | string =>
    obtain ⟨token, rfl, hkind⟩ := htokens.exists_eq_singleton
    exact ⟨_, .string hkind, rfl⟩
  | name =>
    obtain ⟨token, rfl, hkind⟩ := htokens.exists_eq_singleton
    exact ⟨_, .name hkind, rfl⟩
  | call _ ih =>
    obtain ⟨token, _, rfl, hname, hrest⟩ := htokens.uncons
    obtain ⟨opening, _, rfl, hopening, hrest⟩ := hrest.uncons
    obtain ⟨inner, closing, rfl, hinner, hclosing⟩ := hrest.unclose
    obtain ⟨arguments, harguments, hshape⟩ := ih hinner
    refine ⟨_, .call hname hopening harguments hclosing, ?_⟩
    rw [Expression.mapLines, Expression.mapLines, hshape]
  | list _ ih =>
    obtain ⟨opening, _, rfl, hopening, hrest⟩ := htokens.uncons
    obtain ⟨inner, closing, rfl, hinner, hclosing⟩ := hrest.unclose
    obtain ⟨elements, helements, hshape⟩ := ih hinner
    refine ⟨_, .list hopening helements hclosing, ?_⟩
    rw [Expression.mapLines, Expression.mapLines, hshape]
  | group htree ih =>
    obtain ⟨opening, _, rfl, hopening, hrest⟩ := htokens.uncons
    obtain ⟨inner, closing, rfl, hinner, hclosing⟩ := hrest.unclose
    obtain ⟨tree, hderives, hshape⟩ := ih hinner
    exact ⟨_, .group hopening (hderives.of_le htree.rank_le) hclosing, hshape⟩
  | @operation rank leftRank rightRank _ _ kind op _ _ _ hop _ hleftRank _ hrightRank ihleft
      ihright =>
    obtain ⟨before, _, rfl, hbefore, hrest⟩ := List.map_eq_append_iff.mp htokens
    obtain ⟨token, after, rfl, hkind, hafter⟩ := Spells.uncons hrest
    obtain ⟨left, hleft, hleftShape⟩ := ihleft hbefore
    obtain ⟨right, hright, hrightShape⟩ := ihright hafter
    -- The rank of the operator is one more than some rank, and the right operand has this one.
    obtain ⟨rank, rfl⟩ : ∃ rank', rank = rank' + 1 := ⟨rank - 1, by omega⟩
    refine ⟨_, .operation (hleft.of_le hleftRank) (hkind ▸ hop)
      (hright.of_le (Nat.le_of_lt_succ hrightRank)), ?_⟩
    rw [Expression.mapLines, Expression.mapLines, hleftShape, hrightShape]
  | noItems =>
    obtain rfl : tokens = [] := List.map_eq_nil_iff.mp htokens
    exact ⟨_, .noItems, rfl⟩
  | someItems _ ih =>
    obtain ⟨trees, htrees, hshape⟩ := ih htokens
    exact ⟨_, .someItems htrees, hshape⟩
  | lastItem htree ih =>
    obtain ⟨tree, hderives, hshape⟩ := ih htokens
    refine ⟨_, .lastItem (hderives.of_le htree.rank_le), ?_⟩
    rw [Expression.mapLinesAll, Expression.mapLinesAll, hshape]
    rfl
  | nextItem htree _ ih ihrest =>
    obtain ⟨first, _, rfl, hfirst, hrest⟩ := List.map_eq_append_iff.mp htokens
    obtain ⟨comma, rest, rfl, hcomma, hrest⟩ := Spells.uncons hrest
    obtain ⟨tree, hderives, hshape⟩ := ih hfirst
    obtain ⟨trees, htrees, hshapes⟩ := ihrest hrest
    refine ⟨_, .nextItem (hderives.of_le htree.rank_le) hcomma htrees, ?_⟩
    rw [Expression.mapLinesAll, Expression.mapLinesAll, hshape, hshapes]

theorem WritesExpression.isDerived {kinds : List Token.Kind} {tree : Expression}
    (h : WritesExpression kinds tree) {tokens : List Token} (htokens : Spells tokens kinds) :
    ∃ tree', DerivesExpression tokens tree' ∧
      tree'.mapLines (fun _ => 0) = tree.mapLines (fun _ => 0) := by
  obtain ⟨rank, h⟩ := h
  obtain ⟨tree', htree', hshape⟩ := h.isDerived htokens
  exact ⟨tree', htree'.of_le h.rank_le, hshape⟩

theorem derivesParameters_of_spells {tokens : List Token} {names : List String}
    (h : Spells tokens (nameKinds names)) (hdistinct : names.Nodup) :
    DerivesParameters tokens names := by
  have hnames {first : String} {rest : List String} {tokens : List Token}
      (h : Spells tokens (nameKinds (first :: rest))) : DerivesNames tokens (first :: rest) := by
    induction rest generalizing first tokens with
    | nil =>
      obtain ⟨token, rfl, hkind⟩ := Spells.exists_eq_singleton h
      exact .last hkind
    | cons second rest ih =>
      obtain ⟨token, _, rfl, hkind, hrest⟩ := Spells.uncons h
      obtain ⟨comma, _, rfl, hcomma, hrest⟩ := Spells.uncons hrest
      exact .next hkind hcomma (ih hrest)
  -- The grammar has a rule of its own for no names at all.
  rcases names with _ | ⟨first, rest⟩
  · obtain rfl : tokens = [] := List.map_eq_nil_iff.mp h
    exact .none
  · exact .some (hnames h) hdistinct

end Scriptlet.Grammar
