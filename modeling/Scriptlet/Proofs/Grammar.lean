import Scriptlet.Syntax
import Scriptlet.Token

/-!
# The grammar of the language

The grammar says which lists of tokens stand for which trees, without saying how a tree is found.

```
program        := statement+
statement      := IDENT '=' 'read' '(' ')' ';'
                | IDENT '=' 'random' '(' expression ')' ';'
                | IDENT '=' expression ';'
                | 'write' '(' expression ')' ';'
                | IDENT '(' arguments ')' ';'
                | 'function' IDENT '(' params ')' body
body           := ',' ':' expression ';'
                | ':' statement+ 'end'
params         := ε | IDENT (',' IDENT)*
arguments      := ε | expression (',' expression)*
expression     := concat
concat         := additive ('<>' additive)*
additive       := multiplicative (('+'|'-') multiplicative)*
multiplicative := comparison (('*'|'/') comparison)*
comparison     := primary (('/\'|'\/') primary)*
primary        := NUMBER | STRING | IDENT | IDENT '(' arguments ')'
                | '[' elements ']' | '(' expression ')'
elements       := ε | expression (',' expression)*
```

A phrase is a nonterminal of the grammar together with the tree that it stands for. The nonterminals
from `primary` to `concat` are the expressions of rank zero to four. All chains of operators are
grouped from the left.

* `DerivesTerm tokens term`: the tokens are an expression or a list of expressions.
* `DerivesClause tokens clause`: the tokens are a statement, a body or a list of statements.
* `DerivesProgram tokens program`: the tokens are a program.
-/

namespace Scriptlet.Grammar

/-- The operators that stand in chains of a rank, with the kind of token that spells each. -/
inductive Operator : Nat → Token.Kind → BinaryOp → Prop where
  | greater : Operator 1 .greater .greater
  | less : Operator 1 .less .less
  | multiply : Operator 2 .star .multiply
  | divide : Operator 2 .slash .divide
  | add : Operator 3 .plus .add
  | subtract : Operator 3 .minus .subtract
  | concat : Operator 4 .concat .concat

/-- Some token of the kind `kind`. -/
def sample (kind : Token.Kind) : Token :=
  ⟨kind, "", 0⟩

/-- The kinds of `tokens` are `kinds`, one by one. -/
def Spells (tokens : List Token) (kinds : List Token.Kind) : Prop :=
  tokens.map Token.kind = kinds

/-- A phrase that is made of expressions. -/
inductive Term where
  /-- An expression of the rank `rank`. -/
  | expression (rank : Nat) (tree : Expression)
  /-- Expressions between commas, or nothing. -/
  | items (trees : List Expression)
  /-- Expressions between commas, at least one of them. -/
  | moreItems (trees : List Expression)

/-- `DerivesTerm tokens term`: the tokens are a phrase that is made of expressions. A name, a
call and an operation carry the line of the name or operator. -/
inductive DerivesTerm : List Token → Term → Prop where
  | number {token : Token} {value : Int} (h : token.kind = .number value) :
    DerivesTerm [token] (.expression 0 (.literal value))
  | string {token : Token} {text : String} (h : token.kind = .string text) :
    DerivesTerm [token] (.expression 0 (.string text))
  | name {token : Token} {name : String} (h : token.kind = .identifier name) :
    DerivesTerm [token] (.expression 0 (.identifier name token.line))
  | call {token opening closing : Token} {name : String} {inner : List Token}
    {arguments : List Expression} (hname : token.kind = .identifier name)
    (hopening : opening.kind = .leftParen) (harguments : DerivesTerm inner (.items arguments))
    (hclosing : closing.kind = .rightParen) :
    DerivesTerm (token :: opening :: (inner ++ [closing]))
      (.expression 0 (.call name arguments token.line))
  | list {opening closing : Token} {inner : List Token} {elements : List Expression}
    (hopening : opening.kind = .leftBracket) (helements : DerivesTerm inner (.items elements))
    (hclosing : closing.kind = .rightBracket) :
    DerivesTerm (opening :: (inner ++ [closing])) (.expression 0 (.list elements))
  | group {opening closing : Token} {inner : List Token} {tree : Expression}
    (hopening : opening.kind = .leftParen) (htree : DerivesTerm inner (.expression 4 tree))
    (hclosing : closing.kind = .rightParen) :
    DerivesTerm (opening :: (inner ++ [closing])) (.expression 0 tree)
  /-- A chain of one operand. -/
  | operand {rank : Nat} {tokens : List Token} {tree : Expression}
    (htree : DerivesTerm tokens (.expression rank tree)) :
    DerivesTerm tokens (.expression (rank + 1) tree)
  /-- A chain with one operand more. -/
  | operation {rank : Nat} {before after : List Token} {token : Token} {op : BinaryOp}
    {left right : Expression} (hleft : DerivesTerm before (.expression (rank + 1) left))
    (hop : Operator (rank + 1) token.kind op)
    (hright : DerivesTerm after (.expression rank right)) :
    DerivesTerm (before ++ token :: after)
      (.expression (rank + 1) (.binary op left right token.line))
  | noItems : DerivesTerm [] (.items [])
  | someItems {tokens : List Token} {trees : List Expression}
    (htrees : DerivesTerm tokens (.moreItems trees)) : DerivesTerm tokens (.items trees)
  | lastItem {tokens : List Token} {tree : Expression}
    (htree : DerivesTerm tokens (.expression 4 tree)) : DerivesTerm tokens (.moreItems [tree])
  | nextItem {first rest : List Token} {comma : Token} {tree : Expression}
    {trees : List Expression} (htree : DerivesTerm first (.expression 4 tree))
    (hcomma : comma.kind = .comma) (htrees : DerivesTerm rest (.moreItems trees)) :
    DerivesTerm (first ++ comma :: rest) (.moreItems (tree :: trees))

/-- The tokens are the expression `tree`, of the loosest rank. -/
def DerivesExpression (tokens : List Token) (tree : Expression) : Prop :=
  DerivesTerm tokens (.expression 4 tree)

/-- The tokens are `names` between commas, at least one of them. -/
inductive DerivesNames : List Token → List String → Prop where
  | last {token : Token} {name : String} (h : token.kind = .identifier name) :
    DerivesNames [token] [name]
  | next {token comma : Token} {name : String} {rest : List Token} {names : List String}
    (h : token.kind = .identifier name) (hcomma : comma.kind = .comma)
    (hnames : DerivesNames rest names) : DerivesNames (token :: comma :: rest) (name :: names)

/-- The tokens are parameters: nothing, or names between commas no two of which are the same. -/
inductive DerivesParameters : List Token → List String → Prop where
  | none : DerivesParameters [] []
  | some {tokens : List Token} {names : List String} (hnames : DerivesNames tokens names)
    (hdistinct : names.Nodup) : DerivesParameters tokens names

/-- A phrase that is made of statements. -/
inductive Clause where
  /-- A statement. -/
  | statement (tree : Statement)
  /-- What follows the parameters of a function: its statements in one of the two forms
  `shortBody` and `block`. -/
  | body (trees : List Statement)
  /-- Statements in a row, at least one of them. -/
  | statements (trees : List Statement)

/-- `DerivesClause tokens clause`: the tokens are a phrase that is made of statements. A
statement carries the line of its first token; the statement that a short body stands for
carries the line of the first token of its expression. -/
inductive DerivesClause : List Token → Clause → Prop where
  | read {token : Token} {after : List Token} {name : String}
    (hname : token.kind = .identifier name)
    (hafter : Spells after [.assign, .read, .leftParen, .rightParen, .semicolon]) :
    DerivesClause (token :: after) (.statement (.read name token.line))
  | random {token : Token} {before inner after : List Token} {name : String} {bound : Expression}
    (hname : token.kind = .identifier name) (hbefore : Spells before [.assign, .random, .leftParen])
    (hbound : DerivesExpression inner bound) (hafter : Spells after [.rightParen, .semicolon]) :
    DerivesClause (token :: (before ++ inner ++ after)) (.statement (.random name bound token.line))
  | assign {token : Token} {before inner after : List Token} {name : String} {value : Expression}
    (hname : token.kind = .identifier name) (hbefore : Spells before [.assign])
    (hvalue : DerivesExpression inner value) (hafter : Spells after [.semicolon]) :
    DerivesClause (token :: (before ++ inner ++ after)) (.statement (.assign name value token.line))
  | write {token : Token} {before inner after : List Token} {value : Expression}
    (hkeyword : token.kind = .write) (hbefore : Spells before [.leftParen])
    (hvalue : DerivesExpression inner value) (hafter : Spells after [.rightParen, .semicolon]) :
    DerivesClause (token :: (before ++ inner ++ after)) (.statement (.write value token.line))
  | call {token : Token} {before inner after : List Token} {name : String}
    {arguments : List Expression} (hname : token.kind = .identifier name)
    (hbefore : Spells before [.leftParen]) (harguments : DerivesTerm inner (.items arguments))
    (hafter : Spells after [.rightParen, .semicolon]) :
    DerivesClause (token :: (before ++ inner ++ after))
      (.statement (.evaluate (.call name arguments token.line) token.line))
  | define {token : Token} {before inner after rest : List Token} {name : String}
    {parameters : List String} {body : List Statement} (hkeyword : token.kind = .function)
    (hbefore : Spells before [.identifier name, .leftParen])
    (hparameters : DerivesParameters inner parameters) (hafter : Spells after [.rightParen])
    (hbody : DerivesClause rest (.body body)) :
    DerivesClause (token :: (before ++ inner ++ after ++ rest))
      (.statement (.define name parameters body token.line))
  /-- A body of one expression. -/
  | shortBody {before inner after : List Token} {token : Token} {value : Expression}
    (hbefore : Spells before [.comma, .colon]) (hvalue : DerivesExpression (token :: inner) value)
    (hafter : Spells after [.semicolon]) :
    DerivesClause (before ++ token :: inner ++ after) (.body [.evaluate value token.line])
  /-- A body of statements up to the closing keyword. -/
  | block {before inner after : List Token} {body : List Statement}
    (hbefore : Spells before [.colon]) (hbody : DerivesClause inner (.statements body))
    (hafter : Spells after [.endBlock]) : DerivesClause (before ++ inner ++ after) (.body body)
  | lastStatement {tokens : List Token} {tree : Statement}
    (htree : DerivesClause tokens (.statement tree)) : DerivesClause tokens (.statements [tree])
  | nextStatement {first rest : List Token} {tree : Statement} {trees : List Statement}
    (htree : DerivesClause first (.statement tree))
    (htrees : DerivesClause rest (.statements trees)) :
    DerivesClause (first ++ rest) (.statements (tree :: trees))

/-- The tokens are `program`: a list of statements, at least one of them. -/
def DerivesProgram (tokens : List Token) (program : Program) : Prop :=
  DerivesClause tokens (.statements program)

/-- Some program begins with `tokens`. -/
def Viable (tokens : List Token) : Prop :=
  ∃ more program, DerivesProgram (tokens ++ more) program

end Scriptlet.Grammar
