import Scriptlet.Proofs.Syntax.ExpressionReading
import Scriptlet.Syntax.StatementReading

/-!
# What the readers of statements take

Everything that a reader of statements takes belongs to a phrase of the grammar.

* `outcome_readStatement_of_name`, `outcome_readBody_of_comma` and their companions say what each
  reader does.
* `reads_statement`: what the reader takes is a statement or the beginning of one.
-/

namespace Scriptlet

open Grammar

/-! ## Outcomes of the readers -/

theorem outcome_readExpression_nil : (readExpression []).outcome = ⟨.error .expression, []⟩ := by
  show (readRank 4 []).outcome = _
  simp only [outcome_readRank_succ, outcome_readRank_zero, readPrimary, Reading.outcome_refused,
    Outcome.bind_error]

/-- What `readAssigned` does behind `=` unless `read` or `random` follows: an expression and a
semicolon. -/
def assignedValue (name : String) (line : Nat) (tokens : List Token) : Outcome Statement :=
  (readExpression tokens).outcome.bind fun value rest =>
    (expect .semicolon .assignmentEnd rest).outcome.map fun _ => .assign name value line

section

variable {token : Token} (name : String) (line : Nat) (rest : List Token)

theorem outcome_readAssigned_of_read (h : token.kind = .read) :
    (readAssigned name line (token :: rest)).outcome =
      (expect .leftParen .readOpen rest).outcome.bind fun _ rest =>
        (expect .rightParen .readClose rest).outcome.bind fun _ rest =>
          (expect .semicolon .readEnd rest).outcome.map fun _ => .read name line := by
  simp only [readAssigned, h, Reading.outcome_andThen, Reading.outcome_map, outcome_takeToken,
    Outcome.bind_ok]

theorem outcome_readAssigned_of_random (h : token.kind = .random) :
    (readAssigned name line (token :: rest)).outcome =
      (expect .leftParen .randomOpen rest).outcome.bind fun _ rest =>
        (readExpression rest).outcome.bind fun bound rest =>
          (expect .rightParen .randomClose rest).outcome.bind fun _ rest =>
            (expect .semicolon .randomEnd rest).outcome.map fun _ => .random name bound line := by
  simp only [readAssigned, h, Reading.outcome_andThen, Reading.outcome_map, outcome_takeToken,
    Outcome.bind_ok]

theorem outcome_readAssigned_of_value {tokens : List Token}
    (h : ∀ token ∈ tokens.head?, token.kind ≠ .read ∧ token.kind ≠ .random) :
    (readAssigned name line tokens).outcome = assignedValue name line tokens := by
  rw [assignedValue]
  cases tokens with
  | nil => rw [outcome_readExpression_nil]; rfl
  | cons token rest =>
    obtain ⟨hread, hrandom⟩ := h token rfl
    rw [readAssigned]
    split
    · contradiction
    · contradiction
    · simp only [Reading.outcome_andThen, Reading.outcome_map]

theorem outcome_readNamed_of_assign (h : token.kind = .assign) :
    (readNamed name line (token :: rest)).outcome = (readAssigned name line rest).outcome := by
  simp only [readNamed, h, Reading.outcome_andThen, outcome_takeToken, Outcome.bind_ok]

theorem outcome_readNamed_of_leftParen (h : token.kind = .leftParen) :
    (readNamed name line (token :: rest)).outcome =
      (readArguments rest).outcome.bind fun arguments rest =>
        (expect .semicolon .callEnd rest).outcome.map fun _ =>
          .evaluate (.call name arguments line) line := by
  simp only [readNamed, h, Reading.outcome_andThen, Reading.outcome_map, outcome_takeToken,
    Outcome.bind_ok]

theorem outcome_readNamed_of_other (hassign : token.kind ≠ .assign)
    (hopening : token.kind ≠ .leftParen) :
    (readNamed name line (token :: rest)).outcome =
      ⟨.error .assignOrArguments, token :: rest⟩ := by
  rw [readNamed]
  split
  · contradiction
  · contradiction
  · rfl

end

theorem outcome_readWritten (line : Nat) (tokens : List Token) :
    (readWritten line tokens).outcome =
      (expect .leftParen .writeOpen tokens).outcome.bind fun _ rest =>
        (readExpression rest).outcome.bind fun value rest =>
          (expect .rightParen .writeClose rest).outcome.bind fun _ rest =>
            (expect .semicolon .writeEnd rest).outcome.map fun _ => .write value line := by
  simp only [readWritten, Reading.outcome_andThen, Reading.outcome_map]

section

variable {token : Token} {before : List String} {name : String} (rest : List Token)

theorem outcome_readMoreParameters_of_new (h : token.kind = .identifier name)
    (hnew : name ∉ before) :
    (readMoreParameters before (token :: rest)).outcome =
      afterElement .rightParen .parameterSeparator
        (fun rest => (readMoreParameters (name :: before) rest).outcome) name rest := by
  rw [readMoreParameters.eq_def]
  simp only [h, if_neg hnew]
  cases rest with
  | nil => rfl
  | cons next after =>
    -- The reader and its outcome branch on the same token.
    by_cases hclosing : next.kind = .rightParen
    · simp only [afterElement, if_pos hclosing, Reading.outcome_complete]
    · by_cases hcomma : next.kind = .comma
      · simp only [afterElement, if_neg hclosing, if_pos hcomma, Reading.outcome_widen,
          Reading.outcome_map]
      · simp only [afterElement, if_neg hclosing, if_neg hcomma, Reading.outcome_refused]

theorem outcome_readMoreParameters_of_old (h : token.kind = .identifier name)
    (hold : name ∈ before) :
    (readMoreParameters before (token :: rest)).outcome =
      ⟨.error .distinctParameter, token :: rest⟩ := by
  rw [readMoreParameters.eq_def]
  simp only [h, if_pos hold, Reading.outcome_refused]

theorem outcome_readMoreParameters_of_other (h : ∀ name, token.kind ≠ .identifier name) :
    (readMoreParameters before (token :: rest)).outcome =
      ⟨.error .parameterName, token :: rest⟩ := by
  rw [readMoreParameters.eq_def]
  dsimp only
  split
  · exact absurd ‹_› (h _)
  · rfl

end

theorem outcome_readParameters_of_rightParen {token : Token} (h : token.kind = .rightParen)
    (rest : List Token) : (readParameters (token :: rest)).outcome = ⟨.ok [], rest⟩ := by
  simp [readParameters, h]

theorem outcome_readParameters_of_not_rightParen {tokens : List Token}
    (h : ∀ token ∈ tokens.head?, token.kind ≠ .rightParen) :
    (readParameters tokens).outcome = (readMoreParameters [] tokens).outcome := by
  cases tokens with
  | nil => rfl
  | cons token rest => simp [readParameters, h token rfl]

theorem outcome_expectName_of_name {token : Token} {name : String}
    (h : token.kind = .identifier name) (expected : Expectation) (rest : List Token) :
    (expectName expected (token :: rest)).outcome = ⟨.ok name, rest⟩ := by
  simp [expectName, h]

theorem outcome_expectName_of_other {token : Token} (h : ∀ name, token.kind ≠ .identifier name)
    (expected : Expectation) (rest : List Token) :
    (expectName expected (token :: rest)).outcome = ⟨.error expected, token :: rest⟩ := by
  rw [expectName]
  split
  · exact absurd ‹_› (h _)
  · rfl

theorem outcome_readHeader (tokens : List Token) :
    (readHeader tokens).outcome =
      (expectName .functionName tokens).outcome.bind fun name rest =>
        (expect .leftParen .functionOpen rest).outcome.bind fun _ rest =>
          (readParameters rest).outcome.map fun parameters => (name, parameters) := by
  simp only [readHeader, Reading.outcome_andThen, Reading.outcome_map]

/-- What `readShortBody` does once it has its line: an expression and a semicolon, as the one
statement `.evaluate` of the body. -/
def shortBodyValue (line : Nat) (tokens : List Token) : Outcome (List Statement) :=
  (readExpression tokens).outcome.bind fun value rest =>
    (expect .semicolon .shortBodyEnd rest).outcome.map fun _ => [.evaluate value line]

theorem outcome_readShortBody (line : Nat) (tokens : List Token) :
    (readShortBody line tokens).outcome =
      (expect .colon .shortBodyColon tokens).outcome.bind fun _ rest =>
        shortBodyValue ((rest.head?.map Token.line).getD line) rest := by
  simp only [readShortBody, shortBodyValue, Reading.outcome_andThen, Reading.outcome_map]

section

variable {token : Token} (rest : List Token)

theorem outcome_readStatement_of_function (h : token.kind = .function) :
    (readStatement (token :: rest)).outcome =
      (readHeader rest).outcome.bind fun header rest =>
        (readBody token.line rest).outcome.map fun body =>
          .define header.1 header.2 body token.line := by
  rw [readStatement.eq_def]
  simp only [h, Reading.outcome_andThen, Reading.outcome_map, outcome_takeToken, Outcome.bind_ok]

theorem outcome_readStatement_of_write (h : token.kind = .write) :
    (readStatement (token :: rest)).outcome = (readWritten token.line rest).outcome := by
  rw [readStatement.eq_def]
  simp only [h, Reading.outcome_andThen, outcome_takeToken, Outcome.bind_ok]

theorem outcome_readStatement_of_name {name : String} (h : token.kind = .identifier name) :
    (readStatement (token :: rest)).outcome = (readNamed name token.line rest).outcome := by
  rw [readStatement.eq_def]
  simp only [h, Reading.outcome_andThen, outcome_takeToken, Outcome.bind_ok]

end

/-- The kinds of tokens that `readStatement` accepts in first place. -/
def StartsStatement : Token.Kind → Prop
  | .function | .write | .identifier _ => True
  | _ => False

theorem outcome_readStatement_nil : (readStatement []).outcome = ⟨.error .statement, []⟩ := by
  rw [readStatement.eq_def]
  rfl

theorem outcome_readStatement_of_not_starts {token : Token} (h : ¬ StartsStatement token.kind)
    (rest : List Token) :
    (readStatement (token :: rest)).outcome = ⟨.error .statement, token :: rest⟩ := by
  rw [readStatement.eq_def]
  cases hkind : token.kind <;> simp_all [StartsStatement]

theorem outcome_readBody_nil (line : Nat) :
    (readBody line []).outcome = ⟨.error .bodyColon, []⟩ := by
  rw [readBody.eq_def]
  rfl

theorem outcome_readBody_of_comma {token : Token} (h : token.kind = .comma) (line : Nat)
    (rest : List Token) :
    (readBody line (token :: rest)).outcome = (readShortBody line rest).outcome := by
  rw [readBody.eq_def]
  simp only [if_pos h, Reading.outcome_andThen, outcome_takeToken, Outcome.bind_ok]

theorem outcome_readBody_of_colon {token : Token} (h : token.kind = .colon) (line : Nat)
    (rest : List Token) :
    (readBody line (token :: rest)).outcome =
      (readStatement rest).outcome.bind fun first rest =>
        (readBlock rest).outcome.map (first :: ·) := by
  have hcomma : token.kind ≠ .comma := by rw [h]; decide
  rw [readBody.eq_def]
  simp only [if_neg hcomma, Reading.outcome_andThen, Reading.outcome_map, outcome_expect_of_kind h,
    Outcome.bind_ok]

theorem outcome_readBody_of_other {token : Token} (hcomma : token.kind ≠ .comma)
    (hcolon : token.kind ≠ .colon) (line : Nat) (rest : List Token) :
    (readBody line (token :: rest)).outcome = ⟨.error .bodyColon, token :: rest⟩ := by
  rw [readBody.eq_def]
  simp only [if_neg hcomma, Reading.outcome_andThen, outcome_expect_of_kind_ne hcolon,
    Outcome.bind_error]

theorem outcome_readBlock_nil : (readBlock []).outcome = ⟨.error .blockEnd, []⟩ := by
  rw [readBlock.eq_def]
  rfl

theorem outcome_readBlock_of_end {token : Token} (h : token.kind = .endBlock)
    (rest : List Token) : (readBlock (token :: rest)).outcome = ⟨.ok [], rest⟩ := by
  rw [readBlock.eq_def]
  simp [h]

theorem outcome_readBlock_of_not_end {token : Token} (h : token.kind ≠ .endBlock)
    (rest : List Token) :
    (readBlock (token :: rest)).outcome =
      (readStatement (token :: rest)).outcome.bind fun first rest =>
        (readBlock rest).outcome.map (first :: ·) := by
  rw [readBlock.eq_def]
  simp only [if_neg h, Reading.outcome_andThen, Reading.outcome_map]

/-! ## What the readers take -/

/-- The statements that start with the tokens `before`, as a language of what follows these. -/
def StatementBehind (before phrase : List Token) (statement : Statement) : Prop :=
  DerivesClause (before ++ phrase) (.statement statement)

section

variable {token : Token}

theorem reads_assignedValue {equals : Token} {name : String} (hname : token.kind = .identifier name)
    (hequals : equals.kind = .assign) (tokens : List Token) :
    Reads (StatementBehind [token, equals]) (assignedValue name token.line) tokens := by
  refine .andThen (reads_expression tokens) fun inner value hvalue => ?_
  refine .expect_map (fun semicolon hsemicolon => ?_) _
  show DerivesClause (token :: ([equals] ++ inner ++ [semicolon])) _
  exact .assign hname (by simp [Spells, hequals]) hvalue (by simp [Spells, hsemicolon])

/-- Behind a name and `=`, `readAssigned` reads the rest of an assignment, with an expression,
`read` or `random`. -/
theorem reads_assigned {equals : Token} {name : String} (hname : token.kind = .identifier name)
    (hequals : equals.kind = .assign) (tokens : List Token) :
    Reads (StatementBehind [token, equals])
      (fun list => (readAssigned name token.line list).outcome) tokens := by
  have hvalue := reads_assignedValue hname hequals tokens
  -- Two keywords have a form of their own; whatever else follows is read as a value.
  by_cases hkeyword : ∃ keyword ∈ tokens.head?, keyword.kind = .read ∨ keyword.kind = .random
  · obtain ⟨keyword, hhead, hkind⟩ := hkeyword
    obtain ⟨rest, rfl⟩ := List.head?_eq_some_iff.mp hhead
    rcases hkind with hread | hrandom
    · refine .cons ?_ fun list => outcome_readAssigned_of_read name token.line list hread
      refine .expect_bind (fun opening hopening => ?_) _ rest
      refine .expect_bind (fun closing hclosing => ?_) _
      refine .expect_map (fun semicolon hsemicolon => ?_) _
      exact .read hname (by simp [Spells, hequals, hread, hopening, hclosing, hsemicolon])
    · refine .cons ?_ fun list => outcome_readAssigned_of_random name token.line list hrandom
      refine .expect_bind (fun opening hopening rest => ?_) _ rest
      refine .andThen (reads_expression rest) fun inner bound hbound => ?_
      refine .expect_bind (fun closing hclosing => ?_) _
      refine .expect_map (fun semicolon hsemicolon => ?_) _
      show DerivesClause
        (token :: ([equals, keyword, opening] ++ (inner ++ [closing, semicolon]))) _
      rw [← List.append_assoc]
      exact .random hname (by simp [Spells, hequals, hrandom, hopening]) hbound
        (by simp [Spells, hclosing, hsemicolon])
  · refine hvalue.congr fun list hlist => outcome_readAssigned_of_value name token.line ?_
    intro keyword hhead
    rw [hlist] at hhead
    exact ⟨fun h => hkeyword ⟨keyword, hhead, .inl h⟩, fun h => hkeyword ⟨keyword, hhead, .inr h⟩⟩

theorem reads_calledArguments {opening : Token} {name : String}
    (hname : token.kind = .identifier name) (hopening : opening.kind = .leftParen)
    (tokens : List Token) :
    Reads (StatementBehind [token, opening])
      (fun list => (readArguments list).outcome.bind fun arguments rest =>
        (expect .semicolon .callEnd rest).outcome.map fun _ =>
          .evaluate (.call name arguments token.line) token.line) tokens := by
  refine .andThen (reads_items .rightParen .argumentSeparator tokens) ?_
  rintro used arguments ⟨inner, closing, rfl, hclosing, harguments⟩
  refine .expect_map (fun semicolon hsemicolon => ?_) _
  show DerivesClause (token :: ([opening] ++ (inner ++ [closing] ++ [semicolon]))) _
  rw [List.append_assoc inner, ← List.append_assoc]
  exact .call hname (by simp [Spells, hopening]) harguments (by simp [Spells, hclosing, hsemicolon])

/-- Behind a name, `readNamed` reads the rest of an assignment or of a call. -/
theorem reads_named {name : String} (hname : token.kind = .identifier name) (tokens : List Token) :
    Reads (StatementBehind [token]) (fun list => (readNamed name token.line list).outcome)
      tokens := by
  -- A name alone can always be completed to a call.
  have hcall : ∃ phrase statement, StatementBehind [token] phrase statement := by
    have hopening : (sample .leftParen).kind = .leftParen := rfl
    obtain ⟨phrase, statement, h⟩ := (reads_calledArguments hname hopening []).exists_phrase
    exact ⟨sample .leftParen :: phrase, statement, h⟩
  cases tokens with
  | nil => exact .refused_nil rfl hcall
  | cons next rest =>
    by_cases hassign : next.kind = .assign
    · exact .cons (reads_assigned hname hassign rest)
        (fun list => outcome_readNamed_of_assign name token.line list hassign)
    · by_cases hopening : next.kind = .leftParen
      · exact .cons (reads_calledArguments hname hopening rest)
          (fun list => outcome_readNamed_of_leftParen name token.line list hopening)
      · exact .refused_cons
          (fun list => outcome_readNamed_of_other name token.line list hassign hopening) hcall

/-- Behind the keyword, `readWritten` reads the rest of a write statement. -/
theorem reads_written (hkeyword : token.kind = .write) (tokens : List Token) :
    Reads (StatementBehind [token]) (fun list => (readWritten token.line list).outcome) tokens := by
  simp only [outcome_readWritten]
  refine .expect_bind (fun opening hopening rest => ?_) _ tokens
  refine .andThen (reads_expression rest) fun inner value hvalue => ?_
  refine .expect_bind (fun closing hclosing => ?_) _
  refine .expect_map (fun semicolon hsemicolon => ?_) _
  show DerivesClause (token :: ([opening] ++ (inner ++ [closing, semicolon]))) _
  rw [← List.append_assoc]
  exact .write hkeyword (by simp [Spells, hopening]) hvalue (by simp [Spells, hclosing, hsemicolon])

end

/-! ## Parameters -/

theorem exists_name_not_mem (before : List String) : ∃ name, name ∉ before := by
  -- A name that is longer than all of them is none of them.
  have hlong : ∃ bound, ∀ name ∈ before, name.length < bound := by
    induction before with
    | nil => exact ⟨0, by simp⟩
    | cons first before ih =>
      obtain ⟨bound, h⟩ := ih
      refine ⟨bound + first.length + 1, fun name hname => ?_⟩
      rcases List.mem_cons.mp hname with rfl | hmem
      · omega
      · have := h name hmem
        omega
  obtain ⟨bound, h⟩ := hlong
  refine ⟨String.ofList (List.replicate bound 'a'), fun hmem => ?_⟩
  have := h _ hmem
  simp at this

/-- Lists of `DerivesNames` that are distinct and hold none of the names `before`. -/
def NewNames (before : List String) (tokens : List Token) (names : List String) : Prop :=
  DerivesNames tokens names ∧ names.Nodup ∧ ∀ name ∈ names, name ∉ before

theorem NewNames.next {before names : List String} {tokens : List Token} {token comma : Token}
    {name : String} (hname : token.kind = .identifier name) (hnew : name ∉ before)
    (hcomma : comma.kind = .comma) (h : NewNames (name :: before) tokens names) :
    NewNames before (token :: comma :: tokens) (name :: names) := by
  obtain ⟨hnames, hdistinct, hothers⟩ := h
  refine ⟨.next hname hcomma hnames, ?_, ?_⟩
  · rw [List.nodup_cons]
    exact ⟨fun hmem => hothers name hmem List.mem_cons_self, hdistinct⟩
  · intro other hmem
    rcases List.mem_cons.mp hmem with rfl | hmem
    · exact hnew
    · exact fun hbefore => hothers other hmem (List.mem_cons_of_mem _ hbefore)

theorem NewNames.last {before : List String} {token : Token} {name : String}
    (hname : token.kind = .identifier name) (hnew : name ∉ before) :
    NewNames before [token] [name] :=
  ⟨.last hname, by simp, fun other hmem => List.mem_singleton.mp hmem ▸ hnew⟩

/-- The names in `before` are the invariant of `readMoreParameters`: it reads
`NewNames before`, since a name that was read before cannot go on. -/
theorem reads_moreParameters (before : List String) (tokens : List Token) :
    Reads (Enclosed .rightParen (NewNames before))
      (fun list => (readMoreParameters before list).outcome) tokens := by
  induction hn : tokens.length using Nat.strongRecOn generalizing before tokens with
  | _ length ih =>
    subst hn
    -- Names never run out, so more parameters are possible behind any others.
    have hsome : ∃ phrase names, Enclosed .rightParen (NewNames before) phrase names := by
      obtain ⟨name, hnew⟩ := exists_name_not_mem before
      have hname : (sample (.identifier name)).kind = .identifier name := rfl
      exact ⟨_, _, _, sample .rightParen, rfl, rfl, .last hname hnew⟩
    cases tokens with
    | nil => exact .refused_nil (by rw [readMoreParameters]; rfl) hsome
    | cons token rest =>
      by_cases hname : ∃ name, token.kind = .identifier name
      · obtain ⟨name, hname⟩ := hname
        by_cases hnew : name ∈ before
        · exact .refused_cons
            (fun list => outcome_readMoreParameters_of_old list hname hnew) hsome
        · refine .cons ?_ fun list => outcome_readMoreParameters_of_new list hname hnew
          refine .afterElement _ rest (fun closing hclosing => ?_) ?_
          · exact ⟨[token], closing, rfl, hclosing, .last hname hnew⟩
          · rintro comma after hcomma rfl
            have hshort : after.length < (token :: comma :: after).length :=
              Nat.lt_succ_of_lt (Nat.lt_succ_self _)
            -- The name that has just been read is old for the names behind the comma.
            refine (ih _ hshort (name :: before) after rfl).mono ?_
            rintro phrase names ⟨inner, closing, rfl, hclosing, hnames⟩
            exact ⟨token :: comma :: inner, closing, rfl, hclosing, .next hname hnew hcomma hnames⟩
      · have hother : ∀ name, token.kind ≠ .identifier name := fun name h => hname ⟨name, h⟩
        exact .refused_cons (fun list => outcome_readMoreParameters_of_other list hother) hsome

theorem reads_parameters (tokens : List Token) :
    Reads (Enclosed .rightParen DerivesParameters) (fun list => (readParameters list).outcome)
      tokens := by
  by_cases hclose : ∃ token ∈ tokens.head?, token.kind = .rightParen
  · obtain ⟨token, htoken, hkind⟩ := hclose
    obtain ⟨rest, rfl⟩ := List.head?_eq_some_iff.mp htoken
    refine .cons ?_ (outcome_readParameters_of_rightParen hkind)
    exact .of_head (.ok []) (fun _ _ => rfl) ⟨[], token, rfl, hkind, .none⟩
  · have hmore : Reads (Enclosed .rightParen DerivesParameters)
        (fun list => (readMoreParameters [] list).outcome) tokens := by
      refine (reads_moreParameters [] tokens).mono ?_
      rintro phrase names ⟨inner, closing, rfl, hclosing, hnames, hdistinct, -⟩
      exact ⟨inner, closing, rfl, hclosing, .some hnames hdistinct⟩
    -- Which of the two readers goes on is decided by the first token alone.
    refine hmore.congr fun list hlist => outcome_readParameters_of_not_rightParen ?_
    intro token htoken hkind
    exact hclose ⟨token, hlist ▸ htoken, hkind⟩

/-- A function's name and its parameters in parentheses, as `readHeader` takes them. -/
def DerivesHeader (tokens : List Token) (header : String × List String) : Prop :=
  ∃ before inner after, tokens = before ++ inner ++ after ∧
    Spells before [.identifier header.1, .leftParen] ∧ DerivesParameters inner header.2 ∧
    Spells after [.rightParen]

theorem reads_expectName (expected : Expectation) (tokens : List Token) :
    Reads (fun phrase name => Spells phrase [.identifier name])
      (fun list => (expectName expected list).outcome) tokens := by
  have hsome : ∃ phrase name, Spells phrase [.identifier name] :=
    ⟨[sample (.identifier "")], _, rfl⟩
  cases tokens with
  | nil => exact .refused_nil rfl hsome
  | cons token rest =>
    by_cases hname : ∃ name, token.kind = .identifier name
    · obtain ⟨name, hname⟩ := hname
      refine .cons ?_ (outcome_expectName_of_name hname expected)
      exact .of_head (.ok name) (fun _ _ => rfl) (by simp [Fits, Spells, hname])
    · refine .refused_cons (outcome_expectName_of_other ?_ expected) hsome
      exact fun name h => hname ⟨name, h⟩

theorem reads_header (tokens : List Token) :
    Reads DerivesHeader (fun list => (readHeader list).outcome) tokens := by
  simp only [outcome_readHeader]
  refine .andThen (reads_expectName _ tokens) fun spelled name hname => ?_
  refine .expect_bind (fun opening hopening rest => ?_) _
  refine .map (reads_parameters rest) ?_
  rintro phrase parameters ⟨inner, closing, rfl, hclosing, hparameters⟩
  refine ⟨spelled ++ [opening], inner, [closing], by simp, ?_, hparameters,
    by simp [Spells, hclosing]⟩
  rw [Spells, List.map_append, hname, List.map_singleton, hopening]
  rfl

/-! ## Bodies, blocks and statements -/

theorem reads_shortBodyValue {before : List Token} (hbefore : Spells before [.comma, .colon])
    (first : Token) (rest : List Token) :
    Reads (fun phrase body => DerivesClause (before ++ phrase) (.body body))
      (shortBodyValue first.line) (first :: rest) := by
  have hbody : ∀ used value, DerivesExpression used value → ∀ semicolon,
      semicolon.kind = .semicolon → ∃ token inner, used = token :: inner ∧
        DerivesClause (before ++ (used ++ [semicolon])) (.body [.evaluate value token.line]) := by
    intro used value hvalue semicolon hsemicolon
    -- The line is that of the first token, and an expression has one.
    obtain ⟨token, inner, rfl, -⟩ := Grammar.DerivesTerm.starts hvalue
    refine ⟨token, inner, rfl, ?_⟩
    rw [← List.append_assoc]
    exact .shortBody hbefore hvalue (by simp [Spells, hsemicolon])
  refine .bind (reads_expression (first :: rest)) ?_ ?_
  · intro used value after htokens hvalue _
    refine .expect_map (fun semicolon hsemicolon => ?_) _ after
    obtain ⟨token, inner, rfl, h⟩ := hbody used value hvalue semicolon hsemicolon
    cases htokens
    exact h
  · intro used value hvalue
    obtain ⟨token, inner, -, h⟩ := hbody used value hvalue (sample .semicolon) rfl
    exact ⟨[sample .semicolon], _, h⟩

/-- Behind its comma `readShortBody` reads a body. The argument `line` would count only if no
token followed, and then there is no body. -/
theorem reads_shortBody {comma : Token} (hcomma : comma.kind = .comma) (line : Nat)
    (tokens : List Token) :
    Reads (fun phrase body => DerivesClause (comma :: phrase) (.body body))
      (fun list => (readShortBody line list).outcome) tokens := by
  simp only [outcome_readShortBody]
  refine .expect_bind (fun colon hcolon rest => ?_) _ tokens
  have hbefore : Spells [comma, colon] [.comma, .colon] := by simp [Spells, hcomma, hcolon]
  cases rest with
  | nil =>
    -- Without a token behind the colon there is no line to take, and no body either.
    have hnil : shortBodyValue line [] = ⟨.error .expression, []⟩ := by
      rw [shortBodyValue, outcome_readExpression_nil, Outcome.bind_error]
    exact .refused_nil hnil (reads_shortBodyValue hbefore comma []).exists_phrase
  | cons first rest =>
    refine (reads_shortBodyValue hbefore first rest).congr fun list hlist => ?_
    rw [hlist]
    rfl

/-- Statements up to the `.endBlock` that closes a block, at least one of them. -/
def statementsToEnd (tokens : List Token) : Outcome (List Statement) :=
  (readStatement tokens).outcome.bind fun first rest => (readBlock rest).outcome.map (first :: ·)

/-- The phrases of `DerivesClause` that are statements. -/
def IsStatement (tokens : List Token) (tree : Statement) : Prop :=
  DerivesClause tokens (.statement tree)

/-- A block that `readBlock` may take: a program, or nothing. -/
def DerivesBlock (tokens : List Token) (trees : List Statement) : Prop :=
  tokens = [] ∧ trees = [] ∨ DerivesProgram tokens trees

theorem DerivesBlock.cons {first rest : List Token} {tree : Statement} {trees : List Statement}
    (htrees : DerivesBlock rest trees) (htree : IsStatement first tree) :
    DerivesProgram (first ++ rest) (tree :: trees) := by
  rcases htrees with ⟨rfl, rfl⟩ | htrees
  · rw [List.append_nil]
    exact .lastStatement htree
  · exact .nextStatement htree htrees

/-- Since `readBlock` is `statementsToEnd` or stops at once, it reads a block if
`statementsToEnd` reads a program. -/
theorem reads_block_of {tokens : List Token}
    (h : Reads (Enclosed .endBlock DerivesProgram) statementsToEnd tokens) :
    Reads (Enclosed .endBlock DerivesBlock) (fun list => (readBlock list).outcome) tokens := by
  have hempty : ∀ closing : Token, closing.kind = .endBlock →
      Enclosed .endBlock DerivesBlock [closing] [] :=
    fun closing hclosing => ⟨[], closing, rfl, hclosing, .inl ⟨rfl, rfl⟩⟩
  cases tokens with
  | nil => exact .refused_nil outcome_readBlock_nil ⟨_, _, hempty (sample .endBlock) rfl⟩
  | cons token rest =>
    by_cases hend : token.kind = .endBlock
    · refine .cons ?_ (outcome_readBlock_of_end hend)
      exact .of_head (.ok []) (fun _ _ => rfl) (hempty token hend)
    · -- There is a statement at least, so the block is read as a program is.
      have hblock : Reads (Enclosed .endBlock DerivesBlock) statementsToEnd (token :: rest) := by
        refine h.mono ?_
        rintro phrase trees ⟨inner, closing, rfl, hclosing, htrees⟩
        exact ⟨inner, closing, rfl, hclosing, .inr htrees⟩
      refine hblock.congr fun list hlist => ?_
      obtain ⟨list', rfl⟩ := List.head?_eq_some_iff.mp hlist
      exact outcome_readBlock_of_not_end hend list'

/-- The induction of `statementsToEnd` on the number of tokens, given the readers of shorter
statements. -/
theorem reads_statementsToEnd_below {bound : Nat}
    (ih : ∀ tokens, tokens.length < bound →
      Reads IsStatement (fun list => (readStatement list).outcome) tokens)
    {tokens : List Token} (hlength : tokens.length < bound) :
    Reads (Enclosed .endBlock DerivesProgram) statementsToEnd tokens := by
  induction hn : tokens.length using Nat.strongRecOn generalizing tokens with
  | _ length ihBlock =>
    subst hn
    refine .bind (ih tokens hlength) ?_ ?_
    · intro used tree rest htokens htree hread
      -- A statement is not empty, so less is left for the rest of the block.
      have hshort : rest.length < tokens.length := Reading.length_rest_lt hread
      refine .map (reads_block_of (ihBlock _ hshort (Nat.lt_trans hshort hlength) rfl)) ?_
      rintro phrase trees ⟨inner, closing, rfl, hclosing, htrees⟩
      exact ⟨used ++ inner, closing, by simp, hclosing, htrees.cons htree⟩
    · intro used tree htree
      exact ⟨[sample .endBlock], [tree], used, _, rfl, rfl, .lastStatement htree⟩

theorem exists_body : ∃ phrase body, DerivesClause phrase (.body body) := by
  have hcomma : (sample .comma).kind = .comma := rfl
  obtain ⟨phrase, body, h⟩ := (reads_shortBody hcomma 0 []).exists_phrase
  exact ⟨_, body, h⟩

/-- Both forms of a body are read by `readBody`, given the readers of shorter statements. -/
theorem reads_body_below {tokens : List Token}
    (ih : ∀ list, list.length < tokens.length →
      Reads IsStatement (fun list => (readStatement list).outcome) list) (line : Nat) :
    Reads (fun phrase body => DerivesClause phrase (.body body))
      (fun list => (readBody line list).outcome) tokens := by
  cases tokens with
  | nil => exact .refused_nil (outcome_readBody_nil line) exists_body
  | cons token rest =>
    by_cases hcomma : token.kind = .comma
    · exact .cons (reads_shortBody hcomma line rest) (outcome_readBody_of_comma hcomma line)
    · by_cases hcolon : token.kind = .colon
      · refine .cons ?_ (outcome_readBody_of_colon hcolon line)
        refine (reads_statementsToEnd_below ih (Nat.lt_succ_self _)).mono ?_
        rintro phrase trees ⟨inner, closing, rfl, hclosing, htrees⟩
        show DerivesClause ([token] ++ (inner ++ [closing])) _
        rw [← List.append_assoc]
        exact .block (by simp [Spells, hcolon]) htrees (by simp [Spells, hclosing])
      · exact .refused_cons (outcome_readBody_of_other hcomma hcolon line) exists_body

/-- Behind `function`, `readHeader` and `readBody` read the rest of a definition. -/
theorem reads_definition_below {token : Token} (hkeyword : token.kind = .function)
    {tokens : List Token}
    (ih : ∀ list, list.length < tokens.length →
      Reads IsStatement (fun list => (readStatement list).outcome) list) :
    Reads (StatementBehind [token])
      (fun list => (readHeader list).outcome.bind fun header rest =>
        (readBody token.line rest).outcome.map fun body =>
          .define header.1 header.2 body token.line) tokens := by
  have hdefine : ∀ used header, DerivesHeader used header → ∀ phrase body,
      DerivesClause phrase (.body body) → DerivesClause (token :: (used ++ phrase))
        (.statement (.define header.1 header.2 body token.line)) := by
    rintro used header ⟨before, inner, after, rfl, hbefore, hparameters, hafter⟩ phrase body hbody
    exact .define hkeyword hbefore hparameters hafter hbody
  refine .bind (reads_header tokens) ?_ ?_
  · intro used header rest htokens hheader hread
    -- The body stands behind the header, so the statements in it are shorter as well.
    have hle : rest.length ≤ tokens.length := by
      rw [htokens, List.length_append]
      exact Nat.le_add_left ..
    have ihRest : ∀ list : List Token, list.length < rest.length →
        Reads IsStatement (fun list => (readStatement list).outcome) list :=
      fun list h => ih list (Nat.lt_of_lt_of_le h hle)
    exact .map (reads_body_below ihRest token.line) (hdefine used header hheader)
  · intro used header hheader
    obtain ⟨phrase, body, hbody⟩ := exists_body
    exact ⟨phrase, _, hdefine used header hheader phrase body hbody⟩

/-- On all tokens `readStatement` reads the language `IsStatement`. -/
theorem reads_statement (tokens : List Token) :
    Reads IsStatement (fun list => (readStatement list).outcome) tokens := by
  induction hn : tokens.length using Nat.strongRecOn generalizing tokens with
  | _ length ih =>
    subst hn
    have hsome : ∃ phrase tree, IsStatement phrase tree := by
      have hkeyword : (sample .write).kind = .write := rfl
      obtain ⟨phrase, tree, h⟩ := (reads_written hkeyword []).exists_phrase
      exact ⟨_, tree, h⟩
    cases tokens with
    | nil => exact .refused_nil outcome_readStatement_nil hsome
    | cons token rest =>
      by_cases hstarts : StartsStatement token.kind
      · cases hkind : token.kind with
        | function =>
          -- Only a definition has statements inside, and they stand behind its keyword.
          have ihRest : ∀ list : List Token, list.length < rest.length →
              Reads IsStatement (fun list => (readStatement list).outcome) list :=
            fun list h => ih _ (Nat.lt_succ_of_lt h) list rfl
          exact .cons (reads_definition_below hkind ihRest)
            (fun list => outcome_readStatement_of_function list hkind)
        | write =>
          exact .cons (reads_written hkind rest)
            (fun list => outcome_readStatement_of_write list hkind)
        | identifier name =>
          exact .cons (reads_named hkind rest)
            (fun list => outcome_readStatement_of_name list hkind)
        | _ => rw [hkind] at hstarts; exact hstarts.elim
      · exact .refused_cons (outcome_readStatement_of_not_starts hstarts) hsome

end Scriptlet
