import Scriptlet.Syntax
import Scriptlet.Syntax.Reading

/-!
# Reading expressions

Expressions come in ranks. An expression of rank zero is a literal, a name, a call, a list or an
expression in parentheses. An expression of rank `r + 1` is a chain of expressions of rank `r`
between operators of rank `r + 1`, grouped from the left. An expression is one of the loosest rank.

* `readRank` reads an expression of a given rank, and `readExpression` one of the loosest rank.
* `readItems` reads the items of a list or the arguments of a call up to the closing token.
-/

namespace Scriptlet

/-- The operator that a kind of token is, if it is one. -/
def BinaryOp.ofKind? : Token.Kind → Option BinaryOp
  | .plus => some .add
  | .minus => some .subtract
  | .star => some .multiply
  | .slash => some .divide
  | .concat => some .concat
  | .greater => some .greater
  | .less => some .less
  | _ => none

/-- The operator that `kind` is, if its `BinaryOp.rank` is `rank`. -/
def BinaryOp.ofRank? (rank : Nat) (kind : Token.Kind) : Option BinaryOp :=
  (BinaryOp.ofKind? kind).filter fun op => op.rank == rank

/-- The rank of the loosest operator, `BinaryOp.concat`. -/
def BinaryOp.loosestRank : Nat := 4

mutual

/-- Reads an expression of rank `rank`. -/
def readRank (rank : Nat) (tokens : List Token) : Reading Expression tokens :=
  match rank with
  | 0 => readPrimary tokens
  | rank + 1 =>
    match readRank rank tokens with
    | .complete left rest shorter => readChain rank left tokens rest shorter
    | .refused expected rest => .refused expected rest
termination_by (tokens.length, rank + 1)

/-- Extends `left` by the operators of rank `rank + 1` that follow it. The chain started in
front of `start` and stands in front of `tokens`. -/
def readChain (rank : Nat) (left : Expression) (start tokens : List Token)
    (shorter : tokens.length < start.length) : Reading Expression start :=
  match tokens with
  | [] => .complete left [] shorter
  | token :: rest =>
    match BinaryOp.ofRank? (rank + 1) token.kind with
    | none => .complete left (token :: rest) shorter
    | some op =>
      match readRank rank rest with
      | .complete right after shorter' =>
        readChain rank (.binary op left right token.line) start after
          (Nat.lt_trans shorter' (Nat.lt_trans (Nat.lt_succ_self _) shorter))
      | .refused expected after => .refused expected after
termination_by (tokens.length, 0)

/-- Reads an expression of rank zero. A name is a call when an opening parenthesis follows it. -/
def readPrimary (tokens : List Token) : Reading Expression tokens :=
  match tokens with
  | [] => .refused .expression []
  | token :: rest =>
    match token.kind with
    | .number value => (takeToken token rest).map fun _ => .literal value
    | .string text => (takeToken token rest).map fun _ => .string text
    | .identifier name =>
      match rest with
      | [] => .complete (.identifier name token.line) [] (Nat.lt_succ_self _)
      | next :: after =>
        if next.kind = .leftParen then
          ((readItems .rightParen .argumentSeparator after).map fun arguments =>
            .call name arguments token.line).widen (Nat.lt_succ_of_lt (Nat.lt_succ_self _))
        else
          .complete (.identifier name token.line) (next :: after) (Nat.lt_succ_self _)
    | .leftBracket =>
      ((readItems .rightBracket .elementSeparator rest).map .list).widen (Nat.lt_succ_self _)
    | .leftParen =>
      ((readRank BinaryOp.loosestRank rest).andThen fun inner after _ =>
        (expect .rightParen .groupClose after).map fun _ => inner).widen (Nat.lt_succ_self _)
    | _ => .refused .expression (token :: rest)
termination_by (tokens.length, 0)

/-- Reads items between commas up to the token `close`; the opening token is already taken.
`expected` is what an item is waiting for behind it. -/
def readItems (close : Token.Kind) (expected : Expectation) (tokens : List Token) :
    Reading (List Expression) tokens :=
  match tokens with
  | [] => readMoreItems close expected []
  | token :: rest =>
    if token.kind = close then (takeToken token rest).map fun _ => []
    else readMoreItems close expected (token :: rest)
termination_by (tokens.length, BinaryOp.loosestRank + 3)

/-- Reads at least one item between commas, and the token `close`. -/
def readMoreItems (close : Token.Kind) (expected : Expectation) (tokens : List Token) :
    Reading (List Expression) tokens :=
  match readRank BinaryOp.loosestRank tokens with
  | .refused unread rest => .refused unread rest
  | .complete _ [] _ => .refused expected []
  | .complete item (token :: rest) shorter =>
    have shorter' : rest.length < tokens.length :=
      Nat.lt_trans (Nat.lt_succ_self _) shorter
    if token.kind = close then
      .complete [item] rest shorter'
    else if token.kind = .comma then
      ((readMoreItems close expected rest).map (item :: ·)).widen shorter'
    else .refused expected (token :: rest)
termination_by (tokens.length, BinaryOp.loosestRank + 2)

end

/-- Reads an expression of the `loosestRank`. -/
def readExpression (tokens : List Token) : Reading Expression tokens :=
  readRank BinaryOp.loosestRank tokens

/-- Reads the arguments of a call after the opening parenthesis. -/
def readArguments (tokens : List Token) : Reading (List Expression) tokens :=
  readItems .rightParen .argumentSeparator tokens

end Scriptlet
