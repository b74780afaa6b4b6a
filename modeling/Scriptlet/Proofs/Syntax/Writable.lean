import Scriptlet.Proofs.Syntax.Writing
import Scriptlet.Proofs.Token.Layout

/-!
# Trees that can be written

Not every tree stands in a source text. Literals, strings and names must have a spelling, parameters
must be distinct, bodies must not be empty, and a statement that only evaluates an expression must
be a call, unless it is a whole body.

* `Expression.Writable`, `Statement.Writable` and `Program.Writable` say which trees can be written.
* `DerivesClause.writable`: the grammar derives nothing else from tokens that can be spelled.
* `WritesClause.isDerived`: what is written is derived, up to lines.
* `Statement.exists_writesAll`: there is a way to write every writable program.
-/

namespace Scriptlet

open Lexicon

/-! ## Writable trees -/

mutual

/-- Literals are in the range of `Integer`, strings are bodies of string literals and names
satisfy `IsName`, everywhere in the expression. -/
def Expression.Writable : Expression → Prop
  | .literal value => 0 ≤ value ∧ value ≤ Integer.greatest
  | .string text => StringBody text.toList
  | .identifier name _ => IsName name
  | .binary _ left right _ => left.Writable ∧ right.Writable
  | .list items => allWritable items
  | .call name arguments _ => IsName name ∧ allWritable arguments

def Expression.allWritable : List Expression → Prop
  | [] => True
  | e :: es => e.Writable ∧ allWritable es

end

/-- The outermost form of the expression is `.call`. -/
def Expression.IsCall : Expression → Prop
  | .call _ _ _ => True
  | _ => False

/-- The body is a single `.evaluate` of a writable expression, which need not be a call: the
short form of a body. -/
def Program.IsExpression (body : Program) : Prop :=
  ∃ value line, body = [.evaluate value line] ∧ value.Writable

mutual

/-- A statement that can stand in a source text on its own. An `.evaluate` must be a call
here, and a body may be `Program.IsExpression` or a nonempty list of writable statements. -/
def Statement.Writable : Statement → Prop
  | .assign name value _ => IsName name ∧ value.Writable
  | .write value _ => value.Writable
  | .read name _ => IsName name
  | .random name bound _ => IsName name ∧ bound.Writable
  | .define name parameters body _ =>
    IsName name ∧ (∀ parameter ∈ parameters, IsName parameter) ∧ parameters.Nodup ∧
      (Program.IsExpression body ∨ body ≠ [] ∧ Statement.allWritable body)
  | .evaluate value _ => value.IsCall ∧ value.Writable

def Statement.allWritable : List Statement → Prop
  | [] => True
  | statement :: rest => statement.Writable ∧ Statement.allWritable rest

end

/-- The program is not empty and its statements are writable. -/
def Program.Writable (program : Program) : Prop :=
  program ≠ [] ∧ Statement.allWritable program

namespace Grammar

def Term.Writable : Term → Prop
  | .expression _ tree => tree.Writable
  | .items trees => Expression.allWritable trees
  | .moreItems trees => Expression.allWritable trees

def Clause.Writable : Clause → Prop
  | .statement tree => tree.Writable
  | .body trees => Program.IsExpression trees ∨ Program.Writable trees
  | .statements trees => Program.Writable trees

/-! ## What is derived is writable -/

/-- All of `kinds` have a `Payload`, so a text exists for each of them. -/
def Spellable (kinds : List Token.Kind) : Prop :=
  ∀ kind ∈ kinds, Payload kind

@[simp]
theorem spellable_nil : Spellable [] :=
  List.forall_mem_nil _

@[simp]
theorem spellable_cons {kind : Token.Kind} {kinds : List Token.Kind} :
    Spellable (kind :: kinds) ↔ Payload kind ∧ Spellable kinds :=
  List.forall_mem_cons

@[simp]
theorem spellable_append {kinds kinds' : List Token.Kind} :
    Spellable (kinds ++ kinds') ↔ Spellable kinds ∧ Spellable kinds' :=
  List.forall_mem_append

/-- From tokens that can be spelled, `DerivesTerm` makes writable trees only. -/
theorem DerivesTerm.writable {tokens : List Token} {term : Term} (h : DerivesTerm tokens term)
    (hspellable : Spellable (tokens.map Token.kind)) : term.Writable := by
  -- Every payload in the tree is that of a token, so the tokens decide.
  induction h with
  | number h | string h | name h =>
    rw [List.map_singleton, h] at hspellable
    exact (spellable_cons.mp hspellable).1
  | call hname _ _ _ ih =>
    simp only [List.map_cons, List.map_append, hname, spellable_cons, spellable_append]
      at hspellable
    exact ⟨hspellable.1, ih hspellable.2.2.1⟩
  | list _ _ _ ih | group _ _ _ ih =>
    simp only [List.map_cons, List.map_append, spellable_cons, spellable_append] at hspellable
    exact ih hspellable.2.1
  | operand _ ih | someItems _ ih => exact ih hspellable
  | operation _ _ _ ihleft ihright =>
    simp only [List.map_cons, List.map_append, spellable_cons, spellable_append] at hspellable
    exact ⟨ihleft hspellable.1, ihright hspellable.2.2⟩
  | noItems => trivial
  | lastItem _ ih => exact ⟨ih hspellable, trivial⟩
  | nextItem _ _ _ ih ihrest =>
    simp only [List.map_cons, List.map_append, spellable_cons, spellable_append] at hspellable
    exact ⟨ih hspellable.1, ihrest hspellable.2.2⟩

theorem spellable_nameKinds {names : List String} :
    Spellable (nameKinds names) ↔ ∀ name ∈ names, IsName name := by
  induction names with
  | nil => simp [nameKinds]
  | cons first rest ih =>
    rcases rest with _ | ⟨second, rest⟩
    · simp [nameKinds, Payload]
    · have hcons : nameKinds (first :: second :: rest) =
          .identifier first :: .comma :: nameKinds (second :: rest) := rfl
      rw [hcons, spellable_cons, spellable_cons, ih, List.forall_mem_cons (a := first)]
      exact and_congr_right fun _ => and_iff_right trivial

theorem DerivesParameters.nodup {tokens : List Token} {names : List String}
    (h : DerivesParameters tokens names) : names.Nodup := by
  rcases h with _ | ⟨-, hdistinct⟩
  · exact List.nodup_nil
  · exact hdistinct

/-- From tokens that can be spelled, `DerivesClause` makes writable trees only. -/
theorem DerivesClause.writable {tokens : List Token} {clause : Clause}
    (h : DerivesClause tokens clause) (hspellable : Spellable (tokens.map Token.kind)) :
    clause.Writable := by
  induction h with
  | read hname _ =>
    rw [List.map_cons, hname] at hspellable
    exact (spellable_cons.mp hspellable).1
  | random hname _ hvalue _ | assign hname _ hvalue _ =>
    simp only [List.map_cons, List.map_append, hname, spellable_cons, spellable_append]
      at hspellable
    exact ⟨hspellable.1, DerivesTerm.writable hvalue hspellable.2.1.2⟩
  | write _ _ hvalue _ =>
    simp only [List.map_cons, List.map_append, spellable_cons, spellable_append] at hspellable
    exact DerivesTerm.writable hvalue hspellable.2.1.2
  | call hname _ harguments _ =>
    simp only [List.map_cons, List.map_append, hname, spellable_cons, spellable_append]
      at hspellable
    exact ⟨trivial, hspellable.1, harguments.writable hspellable.2.1.2⟩
  -- The parameters of a definition are distinct by its derivation.
  | define _ hbefore hparameters _ _ ih =>
    rw [Spells] at hbefore
    simp only [List.map_cons, List.map_append, hbefore, hparameters.map_kind, spellable_cons,
      spellable_append, spellable_nameKinds] at hspellable
    obtain ⟨-, ⟨⟨⟨hname, -⟩, hnames⟩, -⟩, hrest⟩ := hspellable
    exact ⟨hname, hnames, hparameters.nodup, ih hrest⟩
  | shortBody _ hvalue _ =>
    rw [List.map_append, List.map_append, spellable_append, spellable_append] at hspellable
    exact .inl ⟨_, _, rfl, DerivesTerm.writable hvalue hspellable.1.2⟩
  | block _ _ _ ih =>
    simp only [List.map_append, spellable_append] at hspellable
    exact .inr (ih hspellable.1.2)
  | lastStatement _ ih => exact ⟨List.cons_ne_nil _ _, ih hspellable, trivial⟩
  | nextStatement _ _ ih ihrest =>
    rw [List.map_append, spellable_append] at hspellable
    exact ⟨List.cons_ne_nil _ _, ih hspellable.1, (ihrest hspellable.2).2⟩

/-! ## What is written is derived -/

theorem WritesClause.isCall {kinds : List Token.Kind} {value : Expression} {line : Nat}
    (h : WritesClause kinds (.statements [.evaluate value line])) : value.IsCall := by
  rcases h with _ | _ | _ | _ | _ | _ | _ | _ | htree | ⟨htree, hnone⟩
  · cases htree
    trivial
  · cases hnone

/-- A body that is written as statements in a row is writable as such: if it is
`Program.IsExpression`, its expression is a call. -/
theorem WritesClause.writable_of_body {kinds : List Token.Kind} {body : Program}
    (h : WritesClause kinds (.statements body)) (hbody : (Clause.body body).Writable) :
    Program.Writable body := by
  rcases hbody with ⟨value, line, rfl, hvalue⟩ | hbody
  · exact ⟨List.cons_ne_nil _ _, ⟨h.isCall, hvalue⟩, trivial⟩
  · exact hbody

/-- Some tree that `DerivesClause` has for `tokens` differs from the clause in its lines only. -/
def Clause.IsDerived (tokens : List Token) : Clause → Prop
  | .statement tree => ∃ tree', DerivesClause tokens (.statement tree') ∧
    tree'.mapLines (fun _ => 0) = tree.mapLines (fun _ => 0)
  | .body trees => ∃ trees', DerivesClause tokens (.body trees') ∧ Program.SameShape trees' trees
  | .statements trees => ∃ trees', DerivesClause tokens (.statements trees') ∧
    Program.SameShape trees' trees

/-- Tokens that write a writable clause, in the sense of `WritesClause`, derive it up to
lines. -/
theorem WritesClause.isDerived {kinds : List Token.Kind} {clause : Clause}
    (h : WritesClause kinds clause) (hwritable : clause.Writable) {tokens : List Token}
    (htokens : Spells tokens kinds) : clause.IsDerived tokens := by
  induction h generalizing tokens with
  | read =>
    obtain ⟨token, after, rfl, hname, hafter⟩ := htokens.uncons
    exact ⟨_, .read hname hafter, rfl⟩
  | random hvalue =>
    obtain ⟨token, _, rfl, hname, hrest⟩ := htokens.uncons
    obtain ⟨before, inner, after, rfl, hbefore, hinner, hafter⟩ := hrest.enclosed
    obtain ⟨value, hderives, hshape⟩ := hvalue.isDerived hinner
    refine ⟨_, .random hname hbefore hderives hafter, ?_⟩
    rw [Statement.mapLines, Statement.mapLines, hshape]
  | assign hvalue =>
    obtain ⟨token, _, rfl, hname, hrest⟩ := htokens.uncons
    obtain ⟨before, inner, after, rfl, hbefore, hinner, hafter⟩ := hrest.enclosed
    obtain ⟨value, hderives, hshape⟩ := hvalue.isDerived hinner
    refine ⟨_, .assign hname hbefore hderives hafter, ?_⟩
    rw [Statement.mapLines, Statement.mapLines, hshape]
  | write hvalue =>
    obtain ⟨token, _, rfl, hkeyword, hrest⟩ := htokens.uncons
    obtain ⟨before, inner, after, rfl, hbefore, hinner, hafter⟩ := hrest.enclosed
    obtain ⟨value, hderives, hshape⟩ := hvalue.isDerived hinner
    refine ⟨_, .write hkeyword hbefore hderives hafter, ?_⟩
    rw [Statement.mapLines, Statement.mapLines, hshape]
  | call harguments =>
    obtain ⟨token, _, rfl, hname, hrest⟩ := htokens.uncons
    obtain ⟨before, inner, after, rfl, hbefore, hinner, hafter⟩ := hrest.enclosed
    obtain ⟨arguments, hderives, hshape⟩ := harguments.isDerived hinner
    refine ⟨_, .call hname hbefore hderives hafter, ?_⟩
    rw [Statement.mapLines, Statement.mapLines, Expression.mapLines, Expression.mapLines, hshape]
  | define _ ih =>
    obtain ⟨-, -, hdistinct, hbody⟩ := hwritable
    obtain ⟨token, _, rfl, hkeyword, hrest⟩ := htokens.uncons
    obtain ⟨_, rest, rfl, hheader, hlast⟩ := List.map_eq_append_iff.mp hrest
    obtain ⟨before, inner, after, rfl, hbefore, hinner, hafter⟩ := Spells.enclosed hheader
    obtain ⟨body, hderives, hshape⟩ := ih hbody hlast
    refine ⟨_, .define hkeyword hbefore (derivesParameters_of_spells hinner hdistinct) hafter
      hderives, ?_⟩
    rw [Statement.mapLines, Statement.mapLines, hshape]
  | shortBody hvalue =>
    obtain ⟨before, inner, after, rfl, hbefore, hinner, hafter⟩ := htokens.enclosed
    obtain ⟨value, hderives, hshape⟩ := hvalue.isDerived hinner
    obtain ⟨first, inner, rfl, -⟩ := DerivesTerm.starts hderives
    refine ⟨_, .shortBody hbefore hderives hafter, ?_⟩
    simp only [Program.SameShape, Program.mapLines, Statement.mapLines, hshape]
  | block hbody ih =>
    obtain ⟨before, inner, after, rfl, hbefore, hinner, hafter⟩ := htokens.enclosed
    -- A body of one expression is written in a block only if the expression is a call.
    obtain ⟨body, hderives, hshape⟩ := ih (hbody.writable_of_body hwritable) hinner
    exact ⟨_, .block hbefore hderives hafter, hshape⟩
  | lastStatement _ ih =>
    obtain ⟨tree, hderives, hshape⟩ := ih hwritable.2.1 htokens
    refine ⟨_, .lastStatement hderives, ?_⟩
    simp only [Program.SameShape, Program.mapLines, hshape]
  | @nextStatement _ _ _ others _ hothers ih ihrest =>
    obtain ⟨first, rest, rfl, hfirst, hsecond⟩ := List.map_eq_append_iff.mp htokens
    obtain ⟨tree, hderives, hshape⟩ := ih hwritable.2.1 hfirst
    -- Statements in a row are written down to the last one.
    have hne : others ≠ [] := by
      rintro rfl
      cases hothers
    obtain ⟨trees, htrees, hshapes⟩ := ihrest ⟨hne, hwritable.2.2⟩ hsecond
    refine ⟨_, .nextStatement hderives htrees, ?_⟩
    rw [Program.SameShape, Program.mapLines, Program.mapLines, hshape, hshapes]

end Grammar

/-! ## Everything writable can be written -/

open Grammar

/-- Every operator stands for some token of its `BinaryOp.rank`. -/
theorem BinaryOp.exists_operator (op : BinaryOp) :
    ∃ kind, Operator op.rank kind op ∧ Payload kind := by
  cases op
  · exact ⟨_, .add, trivial⟩
  · exact ⟨_, .subtract, trivial⟩
  · exact ⟨_, .multiply, trivial⟩
  · exact ⟨_, .divide, trivial⟩
  · exact ⟨_, .concat, trivial⟩
  · exact ⟨_, .greater, trivial⟩
  · exact ⟨_, .less, trivial⟩

theorem BinaryOp.rank_pos (op : BinaryOp) : 0 < op.rank := by
  cases op <;> decide

mutual

/-- Every writable expression can be written, for instance with parentheses around all
operands. -/
theorem Expression.exists_writes : ∀ e : Expression, e.Writable →
    ∃ kinds, WritesExpression kinds e ∧ Spellable kinds
  | .literal value, h => ⟨_, ⟨0, .number⟩, spellable_cons.mpr ⟨h, spellable_nil⟩⟩
  | .string text, h => ⟨_, ⟨0, .string⟩, spellable_cons.mpr ⟨h, spellable_nil⟩⟩
  | .identifier name line, h => ⟨_, ⟨0, .name⟩, spellable_cons.mpr ⟨h, spellable_nil⟩⟩
  | .binary op left right line, h => by
    obtain ⟨before, ⟨leftRank, hleft⟩, hbefore⟩ := left.exists_writes h.1
    obtain ⟨after, ⟨rightRank, hright⟩, hafter⟩ := right.exists_writes h.2
    obtain ⟨kind, hop, hkind⟩ := op.exists_operator
    -- In parentheses the operands have rank zero, which is tight enough on both sides.
    refine ⟨_, ⟨_, .operation hop (.group hleft) (Nat.zero_le _) (.group hright) op.rank_pos⟩, ?_⟩
    exact spellable_append.mpr ⟨by simp [hbefore, Payload], spellable_cons.mpr
      ⟨hkind, by simp [hafter, Payload]⟩⟩
  | .list items, h => by
    obtain ⟨inner, hitems, hinner⟩ := Expression.exists_writesAll items h
    exact ⟨_, ⟨0, .list hitems⟩, by simp [hinner, Payload]⟩
  | .call name arguments line, h => by
    obtain ⟨inner, hitems, hinner⟩ := Expression.exists_writesAll arguments h.2
    exact ⟨_, ⟨0, .call hitems⟩, by simp [hinner, Payload, h.1]⟩

theorem Expression.exists_writesAll : ∀ es : List Expression, Expression.allWritable es →
    ∃ kinds, WritesTerm kinds (.items es) ∧ Spellable kinds
  | [], _ => ⟨[], .noItems, spellable_nil⟩
  | e :: es, h => by
    obtain ⟨first, ⟨rank, htree⟩, hfirst⟩ := e.exists_writes h.1
    obtain ⟨rest, htrees, hrest⟩ := Expression.exists_writesAll es h.2
    cases htrees with
    | noItems => exact ⟨_, .someItems (.lastItem htree), hfirst⟩
    | someItems htrees =>
      exact ⟨_, .someItems (.nextItem htree htrees), by simp [hfirst, hrest, Payload]⟩

end

mutual

theorem Statement.exists_writes : ∀ statement : Statement, statement.Writable →
    ∃ kinds, WritesClause kinds (.statement statement) ∧ Spellable kinds
  | .assign name value line, h => by
    obtain ⟨inner, hvalue, hinner⟩ := value.exists_writes h.2
    exact ⟨_, .assign hvalue, by simp [hinner, h.1, Payload]⟩
  | .write value line, h => by
    obtain ⟨inner, hvalue, hinner⟩ := value.exists_writes h
    exact ⟨_, .write hvalue, by simp [hinner, Payload]⟩
  | .read name line, h => ⟨_, .read, spellable_cons.mpr ⟨h, by simp [Payload]⟩⟩
  | .random name bound line, h => by
    obtain ⟨inner, hbound, hinner⟩ := bound.exists_writes h.2
    exact ⟨_, .random hbound, by simp [hinner, h.1, Payload]⟩
  | .define name parameters body line, h => by
    obtain ⟨hname, hnames, -, hbody⟩ := h
    have hheader : Spellable (nameKinds parameters) := spellable_nameKinds.mpr hnames
    -- A body that is one expression takes the short form, and any other one a block.
    rcases hbody with ⟨value, line', rfl, hvalue⟩ | ⟨hne, hall⟩
    · obtain ⟨inner, hvalue, hinner⟩ := value.exists_writes hvalue
      exact ⟨_, .define (.shortBody hvalue), by simp [hname, hheader, hinner, Payload]⟩
    · obtain ⟨inner, hbody, hinner⟩ := Statement.exists_writesAll body hne hall
      exact ⟨_, .define (.block hbody), by simp [hname, hheader, hinner, Payload]⟩
  | .evaluate (.call name arguments line) line', h => by
    obtain ⟨inner, hitems, hinner⟩ := Expression.exists_writesAll arguments h.2.2
    exact ⟨_, .call hitems, by simp [hinner, h.2.1, Payload]⟩

/-- A nonempty list of writable statements can be written as a program. -/
theorem Statement.exists_writesAll : ∀ program : Program, program ≠ [] →
    Statement.allWritable program → ∃ kinds, WritesProgram kinds program ∧ Spellable kinds
  | [statement], _, h => by
    obtain ⟨kinds, htree, hkinds⟩ := statement.exists_writes h.1
    exact ⟨kinds, .lastStatement htree, hkinds⟩
  | statement :: second :: rest, _, h => by
    obtain ⟨first, htree, hfirst⟩ := statement.exists_writes h.1
    obtain ⟨others, htrees, hothers⟩ :=
      Statement.exists_writesAll (second :: rest) (List.cons_ne_nil _ _) h.2
    exact ⟨_, .nextStatement htree htrees, spellable_append.mpr ⟨hfirst, hothers⟩⟩

end

end Scriptlet
