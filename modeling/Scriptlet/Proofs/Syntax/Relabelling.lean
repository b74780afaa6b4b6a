import Scriptlet.Proofs.Lines
import Scriptlet.Proofs.Syntax.Program

/-!
# The grammar and lines

When the lines of tokens are replaced by others, the grammar derives the same trees with their lines
replaced in the same way. Programs can be put behind one another.

* `DerivesTerm.mapLines` and `DerivesClause.mapLines`: the grammar does not look at lines.
* `DerivesProgram.append`: the tokens of two programs in a row are those of one program.
-/

namespace Scriptlet

variable (f : Nat → Nat)

/-- The token with its line mapped by `f`. -/
def Token.mapLine (token : Token) : Token :=
  { token with line := f token.line }

namespace Grammar

def Term.mapLines : Term → Term
  | .expression rank tree => .expression rank (tree.mapLines f)
  | .items trees => .items (Expression.mapLinesAll f trees)
  | .moreItems trees => .moreItems (Expression.mapLinesAll f trees)

def Clause.mapLines : Clause → Clause
  | .statement tree => .statement (tree.mapLines f)
  | .body trees => .body (Program.mapLines f trees)
  | .statements trees => .statements (Program.mapLines f trees)

theorem Spells.mapLine {tokens : List Token} {kinds : List Token.Kind} (h : Spells tokens kinds) :
    Spells (tokens.map (Token.mapLine f)) kinds := by
  rw [Spells, List.map_map]
  exact h

/-- The rules of `DerivesTerm` copy lines from tokens to trees, so they commute with a map `f`
on lines. -/
theorem DerivesTerm.mapLines {tokens : List Token} {term : Term} (h : DerivesTerm tokens term) :
    DerivesTerm (tokens.map (Token.mapLine f)) (term.mapLines f) := by
  -- One case for each rule: the rule itself applies to the mapped tokens.
  induction h with
  | number h => exact .number h
  | string h => exact .string h
  | @name token _ h => exact DerivesTerm.name (show (token.mapLine f).kind = _ from h)
  | call hname hopening _ hclosing ih =>
    rw [List.map_cons, List.map_cons, List.map_append]
    exact .call hname hopening ih hclosing
  | list hopening _ hclosing ih =>
    rw [List.map_cons, List.map_append]
    exact .list hopening ih hclosing
  | group hopening _ hclosing ih =>
    rw [List.map_cons, List.map_append]
    exact .group hopening ih hclosing
  | operand _ ih => exact .operand ih
  | operation _ hop _ ihleft ihright =>
    rw [List.map_append, List.map_cons]
    exact .operation ihleft hop ihright
  | noItems => exact .noItems
  | someItems _ ih => exact .someItems ih
  | lastItem _ ih => exact .lastItem ih
  | nextItem _ hcomma _ ih ihrest =>
    rw [List.map_append, List.map_cons]
    exact .nextItem ih hcomma ihrest

theorem DerivesNames.mapLines {tokens : List Token} {names : List String}
    (h : DerivesNames tokens names) : DerivesNames (tokens.map (Token.mapLine f)) names := by
  induction h with
  | last h => exact .last h
  | next h hcomma _ ih => exact .next h hcomma ih

theorem DerivesParameters.mapLines {tokens : List Token} {names : List String}
    (h : DerivesParameters tokens names) :
    DerivesParameters (tokens.map (Token.mapLine f)) names := by
  rcases h with _ | ⟨hnames, hdistinct⟩
  · exact .none
  · exact .some (hnames.mapLines f) hdistinct

/-- The rules of `DerivesClause` copy lines from tokens to trees, so they commute with a map
`f` on lines. -/
theorem DerivesClause.mapLines {tokens : List Token} {clause : Clause}
    (h : DerivesClause tokens clause) :
    DerivesClause (tokens.map (Token.mapLine f)) (clause.mapLines f) := by
  induction h with
  | read hname hafter =>
    rw [List.map_cons]
    exact .read hname (hafter.mapLine f)
  | random hname hbefore hbound hafter =>
    rw [List.map_cons, List.map_append, List.map_append]
    exact .random hname (hbefore.mapLine f) (DerivesTerm.mapLines f hbound) (hafter.mapLine f)
  | assign hname hbefore hvalue hafter =>
    rw [List.map_cons, List.map_append, List.map_append]
    exact .assign hname (hbefore.mapLine f) (DerivesTerm.mapLines f hvalue) (hafter.mapLine f)
  | write hkeyword hbefore hvalue hafter =>
    rw [List.map_cons, List.map_append, List.map_append]
    exact .write hkeyword (hbefore.mapLine f) (DerivesTerm.mapLines f hvalue) (hafter.mapLine f)
  | call hname hbefore harguments hafter =>
    rw [List.map_cons, List.map_append, List.map_append]
    exact .call hname (hbefore.mapLine f) (harguments.mapLines f) (hafter.mapLine f)
  | define hkeyword hbefore hparameters hafter _ ih =>
    rw [List.map_cons, List.map_append, List.map_append, List.map_append]
    exact .define hkeyword (hbefore.mapLine f) (hparameters.mapLines f) (hafter.mapLine f) ih
  | shortBody hbefore hvalue hafter =>
    rw [List.map_append, List.map_append, List.map_cons]
    exact .shortBody (hbefore.mapLine f) (DerivesTerm.mapLines f hvalue) (hafter.mapLine f)
  | block hbefore _ hafter ih =>
    rw [List.map_append, List.map_append]
    exact .block (hbefore.mapLine f) ih (hafter.mapLine f)
  | lastStatement _ ih => exact .lastStatement ih
  | nextStatement _ _ ih ihrest =>
    rw [List.map_append]
    exact .nextStatement ih ihrest

theorem DerivesProgram.append {tokens tokens' : List Token} {program program' : Program}
    (h : DerivesProgram tokens program) (h' : DerivesProgram tokens' program') :
    DerivesProgram (tokens ++ tokens') (program ++ program') := by
  induction program generalizing tokens with
  | nil => cases h
  | cons tree trees ih =>
    cases h with
    | lastStatement htree => exact .nextStatement htree h'
    | nextStatement htree htrees =>
      rw [List.append_assoc]
      exact .nextStatement htree (ih htrees)

end Grammar

end Scriptlet
