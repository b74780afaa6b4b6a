import Scriptlet.Syntax.ExpressionReading

/-!
# Reading statements and programs

A statement starts with a name or with one of the keywords `write` and `function`. A function body
is one expression after a comma and a colon, or a block of statements up to its closing keyword
after a colon.

* `readStatement` reads one statement, and `readBlock` the statements of a block.
* `readProgram` reads a whole token list as a program, which has at least one statement.
-/

namespace Scriptlet

/-- Reads the rest of a statement after `name =`. -/
def readAssigned (name : String) (line : Nat) (tokens : List Token) : Reading Statement tokens :=
  match tokens with
  | [] => .refused .expression []
  | token :: rest =>
    match token.kind with
    | .read =>
      (takeToken token rest).andThen fun _ rest _ =>
      (expect .leftParen .readOpen rest).andThen fun _ rest _ =>
      (expect .rightParen .readClose rest).andThen fun _ rest _ =>
      (expect .semicolon .readEnd rest).map fun _ =>
      .read name line
    | .random =>
      (takeToken token rest).andThen fun _ rest _ =>
      (expect .leftParen .randomOpen rest).andThen fun _ rest _ =>
      (readExpression rest).andThen fun bound rest _ =>
      (expect .rightParen .randomClose rest).andThen fun _ rest _ =>
      (expect .semicolon .randomEnd rest).map fun _ =>
      .random name bound line
    | _ =>
      (readExpression (token :: rest)).andThen fun value rest _ =>
      (expect .semicolon .assignmentEnd rest).map fun _ =>
      .assign name value line

/-- Reads the rest of a statement after its leading `name`: a binding, or a call. -/
def readNamed (name : String) (line : Nat) (tokens : List Token) : Reading Statement tokens :=
  match tokens with
  | [] => .refused .assignOrArguments []
  | token :: rest =>
    match token.kind with
    | .assign => (takeToken token rest).andThen fun _ rest _ => readAssigned name line rest
    | .leftParen =>
      (takeToken token rest).andThen fun _ rest _ =>
      (readArguments rest).andThen fun arguments rest _ =>
      (expect .semicolon .callEnd rest).map fun _ =>
      .evaluate (.call name arguments line) line
    | _ => .refused .assignOrArguments (token :: rest)

/-- Reads the rest of a statement after `write`. -/
def readWritten (line : Nat) (tokens : List Token) : Reading Statement tokens :=
  (expect .leftParen .writeOpen tokens).andThen fun _ rest _ =>
  (readExpression rest).andThen fun value rest _ =>
  (expect .rightParen .writeClose rest).andThen fun _ rest _ =>
  (expect .semicolon .writeEnd rest).map fun _ =>
  .write value line

/-- Reads at least one parameter between commas, and the closing parenthesis. A name that is
in `before`, among the parameters read already, is refused. -/
def readMoreParameters (before : List String) (tokens : List Token) :
    Reading (List String) tokens :=
  match tokens with
  | [] => .refused .parameterName []
  | token :: rest =>
    match token.kind with
    | .identifier name =>
      if name ∈ before then .refused .distinctParameter (token :: rest)
      else
        match rest with
        | [] => .refused .parameterSeparator []
        | next :: after =>
          if next.kind = .rightParen then
            .complete [name] after (Nat.lt_succ_of_lt (Nat.lt_succ_self _))
          else if next.kind = .comma then
            ((readMoreParameters (name :: before) after).map (name :: ·)).widen
              (Nat.lt_succ_of_lt (Nat.lt_succ_self _))
          else .refused .parameterSeparator (next :: after)
    | _ => .refused .parameterName (token :: rest)
termination_by tokens.length

/-- Reads the parameters of a function after the opening parenthesis, up to the closing one. -/
def readParameters (tokens : List Token) : Reading (List String) tokens :=
  match tokens with
  | [] => readMoreParameters [] []
  | token :: rest =>
    if token.kind = .rightParen then (takeToken token rest).map fun _ => []
    else readMoreParameters [] (token :: rest)

/-- Reads a function's name and parameters after `function`. -/
def readHeader (tokens : List Token) : Reading (String × List String) tokens :=
  (expectName .functionName tokens).andThen fun name rest _ =>
  (expect .leftParen .functionOpen rest).andThen fun _ rest _ =>
  (readParameters rest).map fun parameters =>
  (name, parameters)

/-- Reads the body of a function that is one expression, after the comma. The body's statement
stands on the line of the expression's first token; `line` serves only when there is none, and
then the body is refused. -/
def readShortBody (line : Nat) (tokens : List Token) : Reading (List Statement) tokens :=
  (expect .colon .shortBodyColon tokens).andThen fun _ rest _ =>
  let bodyLine := (rest.head?.map Token.line).getD line
  (readExpression rest).andThen fun value rest _ =>
  (expect .semicolon .shortBodyEnd rest).map fun _ =>
  [.evaluate value bodyLine]

mutual

/-- Reads one statement. Its first token decides between a definition, a write, and what
`readNamed` reads. -/
def readStatement (tokens : List Token) : Reading Statement tokens :=
  match tokens with
  | [] => .refused .statement []
  | token :: rest =>
    match token.kind with
    | .function =>
      (takeToken token rest).andThen fun _ rest _ =>
      (readHeader rest).andThen fun (name, parameters) rest _ =>
      (readBody token.line rest).map fun body =>
      .define name parameters body token.line
    | .write => (takeToken token rest).andThen fun _ rest _ => readWritten token.line rest
    | .identifier name =>
      (takeToken token rest).andThen fun _ rest _ => readNamed name token.line rest
    | _ => .refused .statement (token :: rest)
termination_by (tokens.length, 0)
decreasing_by all_goals (simp_wf; simp only [List.length_cons] at *; omega)

/-- Reads the body of a function after its parameters; `line` is the line of the definition. -/
def readBody (line : Nat) (tokens : List Token) : Reading (List Statement) tokens :=
  match tokens with
  | [] => .refused .bodyColon []
  | token :: rest =>
    if token.kind = .comma then
      (takeToken token rest).andThen fun _ rest _ => readShortBody line rest
    else
      (expect .colon .bodyColon (token :: rest)).andThen fun _ rest _ =>
      (readStatement rest).andThen fun first rest _ =>
      (readBlock rest).map (first :: ·)
termination_by (tokens.length, 0)
decreasing_by all_goals (simp_wf; simp only [List.length_cons] at *; omega)

/-- Reads statements up to the keyword `end` that closes a block, and that keyword. -/
def readBlock (tokens : List Token) : Reading (List Statement) tokens :=
  match tokens with
  | [] => .refused .blockEnd []
  | token :: rest =>
    if token.kind = .endBlock then (takeToken token rest).map fun _ => []
    else
      (readStatement (token :: rest)).andThen fun first rest _ =>
      (readBlock rest).map (first :: ·)
termination_by (tokens.length, 1)
decreasing_by
  · exact Prod.Lex.right _ Nat.zero_lt_one
  · simp_wf; simp only [List.length_cons] at *; omega

end

/-- Reads a token list as statements, at least one of them, with no token left. -/
def readProgram (tokens : List Token) : Except SyntaxError Program :=
  match readStatement tokens with
  | .refused expected rest => .error (.expecting expected rest)
  | .complete first [] _ => .ok [first]
  | .complete first (token :: rest) _ =>
    match readProgram (token :: rest) with
    | .ok program => .ok (first :: program)
    | .error error => .error error
termination_by tokens.length

end Scriptlet
