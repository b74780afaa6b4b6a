import Scriptlet.Syntax.Error

/-!
# Reading a phrase

A phrase is read from the front of a list of tokens. A reading either ends with the phrase's value
and fewer tokens than before, or stops in front of the token that the phrase cannot take. In both
cases it says which tokens are left, so that reading can go on from there.

* `Reading` is the outcome of reading one phrase; its proof field bounds every loop over phrases.
* `Reading.andThen` reads a second phrase after a first one.
* `expect` and `expectName` read single tokens.
-/

namespace Scriptlet

/-- The outcome of reading a phrase from the front of `tokens`. -/
inductive Reading (α : Type) (tokens : List Token) where
  /-- The phrase is complete, and `rest` is behind it; at least one token was taken. -/
  | complete (value : α) (rest : List Token) (shorter : rest.length < tokens.length)
  /-- The phrase cannot go on in front of `rest`, where it was waiting for `expected`. -/
  | refused (expected : Expectation) (rest : List Token)

namespace Reading

variable {α β : Type} {tokens : List Token}

/-- The tokens that are left, whether the phrase is complete or not. -/
def rest : Reading α tokens → List Token
  | .complete _ rest _ => rest
  | .refused _ rest => rest

/-- The value of the phrase, or the error `SyntaxError.expecting` at which reading stopped. -/
def result : Reading α tokens → Except SyntaxError α
  | .complete value _ _ => .ok value
  | .refused expected rest => .error (.expecting expected rest)

/-- The same outcome with `f` applied to the value. -/
def map (f : α → β) : Reading α tokens → Reading β tokens
  | .complete value rest shorter => .complete (f value) rest shorter
  | .refused expected rest => .refused expected rest

/-- The same outcome, seen from a position in front of more tokens. -/
def widen {later : List Token} (longer : later.length < tokens.length) :
    Reading α later → Reading α tokens
  | .complete value left shorter => .complete value left (Nat.lt_trans shorter longer)
  | .refused expected left => .refused expected left

/-- Reads the phrase `second` where `first` ends. A refusal of `first` is the outcome of both. -/
def andThen (first : Reading α tokens)
    (second : α → (rest : List Token) → rest.length < tokens.length → Reading β rest) :
    Reading β tokens :=
  match first with
  | .complete value rest shorter => (second value rest shorter).widen shorter
  | .refused expected rest => .refused expected rest

end Reading

/-- Takes the first token, whatever it is. -/
def takeToken (token : Token) (rest : List Token) : Reading Token (token :: rest) :=
  .complete token rest (Nat.lt_succ_self _)

/-- Reads one token of the kind `kind`. -/
def expect (kind : Token.Kind) (expected : Expectation) (tokens : List Token) :
    Reading Token tokens :=
  match tokens with
  | [] => .refused expected []
  | token :: rest =>
    if token.kind = kind then takeToken token rest else .refused expected (token :: rest)

/-- Reads one name, a token of the kind `Token.Kind.identifier`. -/
def expectName (expected : Expectation) (tokens : List Token) : Reading String tokens :=
  match tokens with
  | [] => .refused expected []
  | token :: rest =>
    match token.kind with
    | .identifier name => (takeToken token rest).map fun _ => name
    | _ => .refused expected (token :: rest)

end Scriptlet
