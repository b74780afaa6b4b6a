import Scriptlet.Proofs.Evaluation.Room
import Scriptlet.Proofs.Listing
import Scriptlet.Proofs.Token.Recovery

/-!
# One verdict for three commands

The command shows the tokens of a file, shows its statements, or runs it. Each of the three goes its
own way from the text to the report, and still they agree on what is wrong with the text. What
showing the statements finds no fault with is run, and what goes wrong then is told in one line.

* `oneLine_message_of_mem_lex` and `Program.oneLine_message_of_run`: the messages of lexical errors
  and of faults are of one line.
* `Ready` says that nothing but the file itself can keep the command from doing its work.
* `report_tokenize_of_readFile` is the report on the tokens of a file.
* `Ready.reports_of_readSource_error`: a text that is no program is reported on in one way.
* `Ready.report_run_of_readSource` is the report on the run of a program.
* `commands_give_one_verdict` is the result.
-/

namespace Scriptlet

open Evaluation Lexicon Text

/-! ## Messages -/

theorem Lexicon.IsName.oneLine {name : String} (h : IsName name) : OneLine name := fun hmem =>
  (Form.proper_word_of_isName h).2 '\n' hmem (by decide)

/-- What is wrong with a piece is told in one line. An unexpected character is shown as it is,
but a newline is a blank and never unexpected. -/
theorem Lexicon.Cut.oneLine_text {text : List Char} {piece : Piece} {cause : LexicalError.Cause}
    (h : Cut text piece) (hcause : piece.content = .fault cause) : OneLine cause.text := by
  have hlabel : OneLine "Number literal out of range: " := by decide
  have hlabel' : OneLine "Unexpected character: " := by decide
  rcases h with ⟨hlexeme, -, -⟩ | ⟨hnone, hstray⟩
  · rcases hlexeme with _ | _ | _ | _ | _ | @⟨digits, -, hdigits, -⟩ | _ | _ | _ <;> cases hcause
    -- The digits of a number have no newline.
    refine hlabel.append fun hmem => ?_
    rw [String.toList_ofList] at hmem
    exact absurd (hdigits '\n' hmem) (by unfold Digit; decide)
  · rcases hstray with _ | _ | @⟨c, text, -, -⟩ <;> cases hcause
    · decide
    · decide
    · refine hlabel'.append fun hmem => ?_
      -- A newline is a lexeme, so it is never stray.
      have hc : '\n' = c := by simpa using hmem
      exact hnone ⟨['\n'], .skipped⟩ (.blank (by decide)) ⟨text, by rw [hc]; rfl⟩

/-- The message of a lexical error of `source` is of one line. -/
theorem oneLine_message_of_mem_lex {source : String} {error : LexicalError}
    (h : error ∈ (lex source).2) : OneLine error.message := by
  have hcause : error.cause ∈ (errorsOf (itemsOfPieces 1 (pieces source.toList))).map
      LexicalError.cause := List.mem_map_of_mem h
  rw [map_cause_errorsOf_itemsOfPieces] at hcause
  obtain ⟨piece, hpiece, hfault⟩ := List.mem_filterMap.mp hcause
  obtain ⟨rest, -, hcut⟩ := exists_cut_of_mem_pieces hpiece
  have hcontent : piece.content = .fault error.cause := by
    unfold Piece.fault? at hfault
    split at hfault <;> cases hfault
    assumption
  have hopening : OneLine "[line " := by decide
  have hlabel : OneLine "] Error: " := by decide
  exact ((hopening.append (oneLine_repr _)).append hlabel).append (hcut.oneLine_text hcontent)

theorem Statement.Written.mentions {tree : Statement} {part : Expression} (h : tree.Written)
    (hpart : tree.Mentions part) : part.Writable := by
  obtain ⟨operand, hoperand, hcontains⟩ := hpart
  induction hcontains with
  | refl => exact h.operand hoperand
  | tail _ hstep ih => exact ih.operands hstep

theorem BinaryOp.oneLine_symbol (op : BinaryOp) : OneLine op.symbol := by
  cases op <;> decide

theorem Value.Kind.oneLine_name (kind : Value.Kind) : Text.OneLine kind.name := by
  cases kind <;> decide

/-- A cause that a statement of a source text `Explains` is told in one line, unless it is in
the words of the output. -/
theorem Statement.Explains.oneLine_text {tree : Statement} {cause : Fault.Cause} {line : Nat}
    (h : tree.Explains cause line) (htree : tree.Written)
    (hcause : ∀ reason, cause ≠ .transfer (.refused reason)) : OneLine cause.text := by
  cases h with
  | undefinedVariable h =>
    have hname : IsName _ := htree.mentions h
    exact .append (.append (by decide) hname.oneLine) (by decide)
  | undefinedFunction h =>
    have hname : IsName _ := (htree.mentions h).1
    exact .append (.append (by decide) hname.oneLine) (by decide)
  | arityMismatch h expected =>
    have hname : IsName _ := (htree.mentions h).1
    exact .append (.append (.append (.append (.append (.append (by decide) hname.oneLine)
      (by decide)) (oneLine_repr _)) (by decide)) (oneLine_repr _)) (by decide)
  | depthExceeded h limit => exact .append (.append (by decide) (oneLine_repr _)) (by decide)
  | divisionByZero h => decide
  | @integerOverflow op _ _ _ h =>
    exact .append (.append (by decide) op.oneLine_symbol) (by decide)
  | @operandKinds op _ _ _ h left right =>
    exact .append (.append (.append (.append (.append (.append (by decide) op.oneLine_symbol)
      (by decide)) left.oneLine_name) (by decide)) right.oneLine_name) (by decide)
  | boundKind h found => exact .append (.append (by decide) found.oneLine_name) (by decide)
  | negativeBound h found => exact .append (.append (by decide) (oneLine_toString _)) (by decide)
  | refusedLine h reason => exact absurd rfl (hcause reason)
  | unreadLine h error =>
    rcases error with _ | _ | reason
    · decide
    · decide
    · exact absurd rfl (hcause reason)

theorem Statement.Written.oneLine_description {tree : Statement} (h : tree.Written) :
    OneLine tree.description := by
  rcases tree with ⟨name, e, line⟩ | ⟨e, line⟩ | ⟨name, line⟩ | ⟨name, e, line⟩ |
    ⟨name, parameters, body, line⟩ | ⟨e, line⟩
  case write =>
    have hwrite : OneLine "write" := by decide
    exact hwrite
  case evaluate =>
    have hoperand := h.operand rfl
    have hresult : OneLine "function result" := by decide
    rcases e with value | text | ⟨name, line⟩ | ⟨op, left, right, line⟩ | items |
      ⟨name, arguments, line⟩
    case call => exact .append (.append (by decide) hoperand.1.oneLine) (by decide)
    all_goals exact hresult
  all_goals
    have hname : IsName name := h.isName name List.mem_cons_self
    exact .append (.append (by decide) hname.oneLine) (by decide)

/-- An output without end has none after some steps of a run either. -/
theorem Path.room {machine after : Machine} {marks : List Mark} (h : Path machine marks after)
    (hroom : machine.output.room = none) : after.output.room = none := by
  rw [h.output hroom]
  exact hroom

/-- The run of a program on an output with `room = none` does not fail in the words of the
output. -/
theorem Program.cause_ne_refused_of_run {program : Program} {machine after : Machine}
    {fault : Fault} (hroom : machine.output.room = none)
    (hflush : machine.output.flushRefusal = none) (h : program.run machine = .error fault after)
    (reason : String) : fault.cause ≠ .transfer (.refused reason) := by
  intro hcause
  obtain ⟨line, value, between, output, ⟨operand, start, hstart, hoperand⟩, hwritten, -, -⟩ :=
    Program.exists_reachesWrite_of_run hflush h hcause
  -- The output has no end when the write comes, so it takes the line.
  obtain ⟨marks, -, -, hpath, -⟩ := Program.exists_path_of_mem_history hstart
  have hbefore : (start.starting (.write operand line)).output.room = none := hpath.room hroom
  have hevaluated := Point.path ⟨.expression operand, start.starting (.write operand line)⟩
  have hafter : Point.after ⟨.expression operand, start.starting (.write operand line)⟩ = between :=
    after_of_ok hoperand
  rw [hafter] at hevaluated
  have hbetween : between.output.room = none := hevaluated.room hbefore
  rw [Sink.writeLine_of_room_eq_none hbetween] at hwritten
  cases hwritten

/-- The message of a fault that the run of a `Written` program ends in is of one line, if the
output takes everything. -/
theorem Program.oneLine_message_of_run {program : Program} {machine after : Machine} {fault : Fault}
    (hprogram : ∀ tree ∈ program, tree.Written) (hmachine : oneLine.AllowsMachine machine)
    (hroom : machine.output.room = none) (hflush : machine.output.flushRefusal = none)
    (h : program.run machine = .error fault after) : OneLine fault.message := by
  have hcause := cause_ne_refused_of_run hroom hflush h
  rcases (program.exists_blames_of_run (.read "" 0) machine).1 fault after h with
    ⟨_, reason, -, -, rfl⟩ | ⟨point, hpoint, tree, hblames, -⟩
  · exact absurd rfl (hcause reason)
  · have htree : tree.Written := by
      have htask := (sound_oneLine.allows_programHistory hprogram hmachine point hpoint).task
      rwa [hblames.task] at htask
    -- The message is put together from the line, the cause and the statement, each of one line.
    unfold Fault.message
    rw [hblames.statement]
    exact .append (.append (.append (.append (by decide) (oneLine_repr _)) (by decide))
      (hblames.explains.oneLine_text htree hcause))
      (.append (.append (by decide) htree.oneLine_description) (by decide))

/-! ## Reports -/

/-- The line that tells the command to do `command` with the file `name`. -/
def CommandLine.on (line : CommandLine) (command name : String) : CommandLine :=
  { line with arguments := [command, name] }

/-- What the command finds, with `input` as another standard input. -/
def Surroundings.withInput (surroundings : Surroundings) (input : List UInt8) : Surroundings :=
  { surroundings with input := input }

/-- Nothing but the file itself keeps `line` from doing its work with it: it holds `source`,
the variables hold `settings`, there is the stack that they need, and the output takes
everything. -/
structure Ready (line : CommandLine) (surroundings : Surroundings) (name source : String)
    (settings : Settings) : Prop where
  file : surroundings.readFile name = .ok source
  choice : Settings.ofVariables line.seed line.depth = .ok settings
  stack : stackRefusal? (stackSize settings.depthLimit) = none
  room : surroundings.output.room = none
  flush : surroundings.output.flushRefusal = none

theorem Report.ofDiagnostics_cons (code : Nat) (output : Sink) (message : String)
    (messages : List String) :
    ofDiagnostics code output (message :: messages) =
      (ofDiagnostics code output messages).after message := by
  unfold ofDiagnostics after
  rw [List.map_cons, String.join_cons]

/-- Diagnostics with line breaks between them are one diagnostic: the message of a
`ScriptError.lexical` shows one line for each error, as `showItems` does. -/
theorem Report.ofDiagnostics_intercalate (code : Nat) (output : Sink) {messages : List String}
    (hne : messages ≠ []) :
    ofDiagnostics code output [String.intercalate "\n" messages] =
      ofDiagnostics code output messages := by
  induction messages with
  | nil => exact absurd rfl hne
  | cons message messages ih =>
    rcases messages with _ | ⟨next, messages⟩
    · rw [String.intercalate_singleton]
    · rw [ofDiagnostics_cons _ _ message, ← ih (List.cons_ne_nil _ _),
        String.intercalate_cons_cons, ofDiagnostics_cons, ofDiagnostics_cons]
      unfold after
      simp only [String.append_assoc]

/-- What `showItems` leaves on an output without end: the texts of the tokens are on the
output, and the messages of the errors among the diagnostics. By induction on `items`. -/
theorem showItems_of_room_eq_none (items : List TokenItem) {output : Sink}
    (hroom : output.room = none) (failed : Bool) :
    showItems output failed items =
      .ofDiagnostics (if failed = false ∧ errorsOf items = [] then 0 else Report.dataError)
        (output.append (linesOf ((tokensOf items).map fun token => .string token.text)))
        ((errorsOf items).map LexicalError.message) := by
  -- Every token moves the output and every error sets the flag, so both are generalized.
  induction items generalizing output failed with
  | nil =>
    have hnothing : output = output.append (linesOf []) := output.append_empty.symm
    cases failed
    · exact congrArg (Report.ofDiagnostics 0 · []) hnothing
    · exact congrArg (Report.ofDiagnostics Report.dataError · []) hnothing
  | cons item items ih =>
    rcases item with error | token
    · have herrors : errorsOf (.error error :: items) = error :: errorsOf items := rfl
      have htokens : tokensOf (.error error :: items) = tokensOf items := rfl
      rw [showItems, ih hroom true, herrors, htokens, if_neg (fun h => nomatch h.1),
        if_neg (fun h => nomatch h.2), List.map_cons, Report.ofDiagnostics_cons]
    · have herrors : errorsOf (.ok token :: items) = errorsOf items := rfl
      have htokens : tokensOf (.ok token :: items) = token :: tokensOf items := rfl
      rw [showItems, Sink.writeLine_of_room_eq_none hroom]
      refine (@ih (output.append _) hroom failed).trans ?_
      rw [herrors, htokens, Sink.append_append, List.map_cons, linesOf_cons]

/-- The report of `tokenize` on a file that can be read, on an output without end. The
variables play no part in it. -/
theorem report_tokenize_of_readFile {line : CommandLine} {surroundings : Surroundings}
    {name source : String} (hfile : surroundings.readFile name = .ok source)
    (hroom : surroundings.output.room = none) :
    (line.on "tokenize" name).report surroundings =
      .ofDiagnostics (if (lex source).2 = [] then 0 else Report.dataError)
        (surroundings.output.append
          (linesOf ((lex source).1.map fun token => .string token.text)))
        ((lex source).2.map LexicalError.message) := by
  simp only [CommandLine.report, CommandLine.on, CommandLine.perform, Surroundings.withFile,
    hfile, showItems_of_room_eq_none _ hroom, true_and]
  rfl

/-- The report on a run that has ended in this outcome, when the output can be flushed. -/
def Report.ofOutcome (output : Sink) : Except ScriptError Value → Report
  | .ok _ => .ofDiagnostics 0 output []
  | .error error =>
    { ofDiagnostics error.exitCode output [error.message] with awaitsInput := error.isEndOfInput }

@[simp]
theorem Report.output_ofOutcome (output : Sink) (outcome : Except ScriptError Value) :
    (ofOutcome output outcome).output = output := by
  cases outcome <;> rfl

/-- When `stackRefusal?` lets a run start, `runScript` tells what it has ended in, and has the
output that it has left. -/
theorem runScript_of_starts {surroundings : Surroundings} {settings : Settings} {source : String}
    {outcome : Except ScriptError Value} {after : Machine}
    (hstack : stackRefusal? (stackSize settings.depthLimit) = none)
    (hrun : runSource source (surroundings.machine settings) = (outcome, after))
    (hflush : after.output.flushRefusal = none) :
    runScript surroundings settings source = .ofOutcome after.output outcome := by
  -- Unfolded where it is applied, the definition would have the size of the stack computed.
  have hbody : runScript = runScript := rfl
  conv at hbody =>
    rhs
    delta runScript
  rw [hbody]
  dsimp -zeta only
  generalize stackRefusal? (stackSize settings.depthLimit) = refusal at hstack ⊢
  subst hstack
  rcases outcome with error | value <;> simp only [hrun, hflush, List.nil_append, Report.ofOutcome]

/-- A program ends in a value or in a fault of its run. -/
theorem runSource_eq {source : String} {program : Program} (h : readSource source = .ok program)
    (machine : Machine) :
    (∃ value, runSource source machine = (.ok value, program.run.after machine)) ∨
      ∃ fault, runSource source machine =
          (.error (.runtime fault), program.run.after machine) ∧
        program.run machine = .error fault (program.run.after machine) := by
  unfold runSource
  rw [h]
  dsimp only
  rcases hrun : program.run machine with ⟨value, after⟩ | ⟨fault, after⟩
  · exact .inl ⟨value, by rw [after_of_ok hrun]⟩
  · exact .inr ⟨fault, by rw [after_of_error hrun], by rw [after_of_error hrun]⟩

namespace Ready

variable {line : CommandLine} {surroundings : Surroundings} {name source : String}
  {settings : Settings}

theorem report_tokenize (h : Ready line surroundings name source settings) :
    (line.on "tokenize" name).report surroundings =
      .ofDiagnostics (if (lex source).2 = [] then 0 else Report.dataError)
        (surroundings.output.append
          (linesOf ((lex source).1.map fun token => .string token.text)))
        ((lex source).2.map LexicalError.message) :=
  report_tokenize_of_readFile h.file h.room

theorem report_parse (h : Ready line surroundings name source settings) :
    (line.on "parse" name).report surroundings = showStatements surroundings.output source := by
  simp only [CommandLine.report, CommandLine.on, CommandLine.perform, Surroundings.withFile,
    h.file]

theorem report_run (h : Ready line surroundings name source settings) :
    (line.on "run" name).report surroundings = runScript surroundings settings source := by
  simp only [CommandLine.report, CommandLine.on, CommandLine.perform, Surroundings.withFile,
    h.choice, h.file]

theorem code_report_parse_of_readSource (h : Ready line surroundings name source settings)
    {program : Program} (hread : readSource source = .ok program) :
    ((line.on "parse" name).report surroundings).code = 0 := by
  rw [h.report_parse, showStatements_of_readSource hread h.room]
  rfl

/-- The run of a text that is no program ends in the error at once. -/
theorem report_run_of_readSource_error (h : Ready line surroundings name source settings)
    {error : ScriptError} (herror : readSource source = .error error) :
    (line.on "run" name).report surroundings = .ofOutcome surroundings.output (.error error) := by
  rw [h.report_run]
  exact runScript_of_starts h.stack (runSource_of_readSource_error herror _) h.flush

/-- A text that `readSource` refuses is reported on in one way by `parse` and by `run`. With
lexical errors in the text, these are what is reported. -/
theorem reports_of_readSource_error (h : Ready line surroundings name source settings)
    {error : ScriptError} (herror : readSource source = .error error) :
    ∃ messages,
      (line.on "parse" name).report surroundings =
        .ofDiagnostics Report.dataError surroundings.output messages ∧
      (line.on "run" name).report surroundings =
        .ofDiagnostics Report.dataError surroundings.output messages ∧
      ((lex source).2 ≠ [] → messages = (lex source).2.map LexicalError.message) := by
  rw [h.report_parse, showStatements, h.report_run_of_readSource_error herror, herror]
  -- Either there are lexical errors, each with a message, or one syntax error has its own.
  unfold readSource at herror
  split at herror
  · rename_i tokens hlex
    split at herror <;> cases herror
    rename_i error hread
    rw [hlex]
    exact ⟨[error.message], rfl, rfl, fun hne => absurd rfl hne⟩
  · rename_i tokens errors hne hlex
    cases herror
    rw [hlex]
    refine ⟨errors.map LexicalError.message, rfl, ?_, fun _ => rfl⟩
    exact Report.ofDiagnostics_intercalate _ _ fun hnil => hne (List.map_eq_nil_iff.mp hnil)

/-- Lexical errors are reported on in one way by `parse` and by `run`, and by
`report_tokenize` the third command shows the same lines behind its tokens. -/
theorem reports_of_lex_ne_nil (h : Ready line surroundings name source settings)
    (hne : (lex source).2 ≠ []) :
    (line.on "parse" name).report surroundings =
        .ofDiagnostics Report.dataError surroundings.output
          ((lex source).2.map LexicalError.message) ∧
      (line.on "run" name).report surroundings =
        .ofDiagnostics Report.dataError surroundings.output
          ((lex source).2.map LexicalError.message) := by
  rcases hread : readSource source with error | program
  · obtain ⟨messages, hparse, hrun, hlexical⟩ := h.reports_of_readSource_error hread
    rw [hlexical hne] at hparse hrun
    exact ⟨hparse, hrun⟩
  -- A program has no lexical errors.
  · obtain ⟨tokens, hstream, -⟩ := readSource_eq_ok_iff.mp hread
    rw [lex_eq_iff.mpr hstream] at hne
    exact absurd rfl hne

/-- The input is no part of what `Ready` asks for. -/
theorem withInput (h : Ready line surroundings name source settings) (input : List UInt8) :
    Ready line (surroundings.withInput input) name source settings :=
  ⟨h.file, h.choice, h.stack, h.room, h.flush⟩

/-- What the run of `program` is reported on with: what it has ended in, and the lines of its
writes as `Mark.written?` finds them. If it has ended in an error, this is a fault that is
told in one line. -/
theorem report_run_of_readSource (h : Ready line surroundings name source settings)
    {program : Program} (hread : readSource source = .ok program) :
    let machine := surroundings.machine settings
    let outcome := runSource source machine
    let output := surroundings.output.append
      (linesOf ((program.trail machine).filterMap Mark.written?))
    outcome.2.output = output ∧
      (line.on "run" name).report surroundings = .ofOutcome output outcome.1 ∧
      ∀ error, outcome.1 = .error error →
        ∃ fault, error = .runtime fault ∧ OneLine fault.message := by
  intro machine outcome output
  have houtput : (program.run.after machine).output = output :=
    (program.path machine).output h.room
  -- An output without end can be flushed after the run as before, so no fault comes from the
  -- flush.
  have hflush : (program.run.after machine).output.flushRefusal = none := by
    rw [houtput]
    exact h.flush
  rcases runSource_eq hread machine with ⟨value, hrun⟩ | ⟨fault, hrun, hfault⟩ <;>
    have houtcome : outcome = _ := hrun
  · rw [houtcome, ← houtput, h.report_run, runScript_of_starts h.stack hrun hflush]
    refine ⟨rfl, rfl, fun error herror => ?_⟩
    cases herror
  · rw [houtcome, ← houtput, h.report_run, runScript_of_starts h.stack hrun hflush]
    refine ⟨rfl, rfl, fun error herror => ?_⟩
    cases herror
    exact ⟨fault, rfl, Program.oneLine_message_of_run (written_of_readSource hread)
      (allowsMachine_fresh oneLine _ _ _ _) h.room h.flush hfault⟩

/-- The run of a program has the status 0 or 70, and the second one says that it has ended in
a fault, which is told in one line. -/
theorem code_report_run_of_readSource (h : Ready line surroundings name source settings)
    {program : Program} (hread : readSource source = .ok program) :
    let run := (line.on "run" name).report surroundings
    let outcome := runSource source (surroundings.machine settings)
    (run.code = 0 ∨ run.code = 70) ∧
      (run.code = 70 ↔ ∃ fault, outcome.1 = .error (.runtime fault)) ∧
      ∀ fault, outcome.1 = .error (.runtime fault) →
        OneLine fault.message ∧ run.diagnostics = fault.message ++ "\n" := by
  intro run outcome
  obtain ⟨-, hreport, hfaults⟩ := h.report_run_of_readSource hread
  have hrun : run = .ofOutcome _ outcome.1 := hreport
  rw [hrun]
  -- The status is 70 for a fault and 0 for a value.
  rcases houtcome : outcome.1 with error | value
  · obtain ⟨fault, rfl, hline⟩ := hfaults error houtcome
    refine ⟨.inr rfl, iff_of_true rfl ⟨fault, rfl⟩, fun fault' heq => ?_⟩
    cases heq
    exact ⟨hline, String.empty_append⟩
  · refine ⟨.inl rfl, iff_of_false nofun ?_, fun fault heq => ?_⟩
    · rintro ⟨fault, heq⟩
      cases heq
    · cases heq

end Ready

/-- **The three commands give one verdict on a file.** Let `Ready` hold: nothing but the file
itself keeps the command from doing its work. The input may be any. Then `parse` ends with the
status 65 exactly if `run` does; the diagnostics are the same, nothing is written, and nothing
of the input is read or matters. The status of `tokenize` is 65 exactly if `lex source` has an
error, and 0 otherwise; the errors are the faults of the pieces of the text, in order, and all
three commands show one line for each of them and nothing else. If `parse` ends with the
status 0, then `run` ends with the status 0 or 70, and it leaves on the output `linesOf` what
was written. The status is 70 exactly if the run has ended in a fault, and the message of the
fault is then the one line of the diagnostics. -/
theorem commands_give_one_verdict {line : CommandLine} {surroundings : Surroundings}
    {name source : String} {settings : Settings}
    (h : Ready line surroundings name source settings) :
    let tokenize := (line.on "tokenize" name).report surroundings
    let parse := (line.on "parse" name).report surroundings
    let run := (line.on "run" name).report surroundings
    let machine := surroundings.machine settings
    let outcome := runSource source machine
    ((parse.code = 65 ↔ run.code = 65) ∧ (parse.code = 0 ∨ parse.code = 65) ∧
      (parse.code = 65 →
        run.diagnostics = parse.diagnostics ∧
        parse.output = surroundings.output ∧ run.output = surroundings.output ∧
        outcome.2.input = surroundings.input ∧
        ∀ input, (line.on "run" name).report (surroundings.withInput input) = run)) ∧
    ((tokenize.code = 65 ↔ (lex source).2 ≠ []) ∧ (tokenize.code = 0 ∨ tokenize.code = 65) ∧
      (tokenize.code = 65 →
        parse.code = 65 ∧
        (lex source).2.map LexicalError.cause = (pieces source.toList).filterMap Piece.fault? ∧
        (∀ error ∈ (lex source).2, OneLine error.message) ∧
        tokenize.diagnostics =
          String.join ((lex source).2.map fun error => error.message ++ "\n") ∧
        parse.diagnostics = tokenize.diagnostics ∧ run.diagnostics = tokenize.diagnostics)) ∧
    (parse.code = 0 →
      (run.code = 0 ∨ run.code = 70) ∧ run.output = outcome.2.output ∧
      (∃ program, readSource source = .ok program ∧ run.output =
        surroundings.output.append (linesOf ((program.trail machine).filterMap Mark.written?))) ∧
      (run.code = 70 ↔ ∃ fault, outcome.1 = .error (.runtime fault)) ∧
      ∀ fault, outcome.1 = .error (.runtime fault) →
        OneLine fault.message ∧ run.diagnostics = fault.message ++ "\n") := by
  intro tokenize parse run machine outcome
  have htokenize : tokenize = _ := h.report_tokenize
  refine ⟨?_, ?_, ?_⟩
  -- A text that is no program is refused by both commands, before any input is looked at.
  · rcases hread : readSource source with error | program
    · obtain ⟨messages, hparse, hrun, -⟩ := h.reports_of_readSource_error hread
      have hparse : parse = _ := hparse
      have hrun : run = _ := hrun
      have houtcome : outcome = (.error error, machine) :=
        runSource_of_readSource_error hread machine
      rw [hparse, hrun, houtcome]
      refine ⟨Iff.rfl, .inr rfl, fun _ => ⟨rfl, rfl, rfl, rfl, fun input => ?_⟩⟩
      rw [← hrun]
      exact ((h.withInput input).report_run_of_readSource_error hread).trans
        (h.report_run_of_readSource_error hread).symm
    · -- A program is shown, and its run has another status.
      have hparse : parse.code = 0 := h.code_report_parse_of_readSource hread
      have hrun : run.code = 0 ∨ run.code = 70 := (h.code_report_run_of_readSource hread).1
      rw [hparse]
      exact ⟨iff_of_false nofun (by omega), .inl rfl, nofun⟩
  -- Lexical errors are all that `tokenize` refuses, and the other two show the same ones.
  · by_cases hlex : (lex source).2 = []
    · rw [htokenize, if_pos hlex]
      exact ⟨iff_of_false (fun h => nomatch h) (fun hne => hne hlex), .inl rfl, nofun⟩
    · obtain ⟨hparse, hrun⟩ := h.reports_of_lex_ne_nil hlex
      have hparse : parse = _ := hparse
      have hrun : run = _ := hrun
      rw [htokenize, if_neg hlex, hparse, hrun]
      refine ⟨iff_of_true rfl hlex, .inr rfl, fun _ => ⟨rfl,
        map_cause_errorsOf_itemsOfPieces 1 _, fun error => oneLine_message_of_mem_lex, ?_, rfl,
        rfl⟩⟩
      unfold Report.ofDiagnostics
      rw [List.map_map]
      rfl
  -- The status 0 of `parse` means that the text is a program, so its run decides.
  · intro hparse
    rcases hread : readSource source with error | program
    · obtain ⟨messages, hrefused, -⟩ := h.reports_of_readSource_error hread
      have hrefused : parse = _ := hrefused
      rw [hrefused] at hparse
      cases hparse
    · obtain ⟨houtput, hreport, -⟩ := h.report_run_of_readSource hread
      have hrun : run.output = _ :=
        (congrArg Report.output hreport).trans (Report.output_ofOutcome _ _)
      obtain ⟨hcode, hfault⟩ := h.code_report_run_of_readSource hread
      exact ⟨hcode, hrun.trans houtput.symm, ⟨program, rfl, hrun⟩, hfault⟩

/-- What the command finds where every file has the text `source` and the input is empty. -/
def Surroundings.holding (source : String) : Surroundings where
  readFile _ := .ok source
  input := []
  output := .unlimited
  words := .scripted []

theorem stackRefusal?_default : stackRefusal? (stackSize Settings.default.depthLimit) = none := by
  decide +kernel

theorem Ready.holding (name source : String) :
    Ready ⟨"tplang", [], none, none⟩ (.holding source) name source .default :=
  ⟨rfl, Settings.ofVariables_none, stackRefusal?_default, rfl, rfl⟩

/-- All commands show the two lexical errors of a text that is no program either. A program
that fails in its second write is shown by `parse`, and its run leaves the line of the first
one. -/
theorem faltering_is_shown_and_fails :
    let line : CommandLine := ⟨"tplang", [], none, none⟩
    let misspelt := Surroundings.holding "x = $;\n\""
    let faltering := Surroundings.holding "write(7); write(y);"
    ((line.on "parse" "a").report misspelt).code = 65 ∧
      ((line.on "run" "a").report misspelt).diagnostics =
        "[line 1] Error: Unexpected character: $\n[line 2] Error: Unterminated string.\n" ∧
      ((line.on "run" "b").report faltering).code = 70 ∧
      ((line.on "run" "b").report faltering).output = Sink.unlimited.append "7\n" ∧
      ((line.on "run" "b").report faltering).diagnostics =
        "[line 1] Runtime Error: Undefined variable 'y'. (in write)\n" := by
  intro line misspelt faltering
  have hmisspelt : Ready line misspelt "a" _ _ := Ready.holding "a" "x = $;\n\""
  have hfaltering : Ready line faltering "b" _ _ := Ready.holding "b" "write(7); write(y);"
  have hlex : (lex "x = $;\n\"").2 = [⟨.unexpectedCharacter '$', 1⟩, ⟨.unterminatedString, 2⟩] := by
    cbv
  have hread : readSource "write(7); write(y);" = .ok .faltering := by cbv
  obtain ⟨-, ⟨hcode, -, hshown⟩, -⟩ := commands_give_one_verdict hmisspelt
  obtain ⟨-, -, hrun⟩ := commands_give_one_verdict hfaltering
  have herrors : (lex "x = $;\n\"").2 ≠ [] := by
    rw [hlex]
    exact List.cons_ne_nil _ _
  obtain ⟨hrefused, -, -, hlines, -, hsame⟩ := hshown (hcode.mpr herrors)
  obtain ⟨-, houtput, -, hfailed, hfault⟩ := hrun (hfaltering.code_report_parse_of_readSource hread)
  have houtcome : ∃ after, runSource "write(7); write(y);" (faltering.machine .default) =
      (.error (.runtime ⟨.undefinedVariable "y", 1, some "write"⟩), after) ∧
      after.output = Sink.unlimited.append "7\n" := by
    unfold runSource
    rw [hread]
    exact ⟨_, rfl, rfl⟩
  obtain ⟨after, hafter, hwritten⟩ := houtcome
  refine ⟨hrefused, hsame.trans ?_, hfailed.mpr ⟨_, congrArg Prod.fst hafter⟩, ?_, ?_⟩
  · rw [hlines, hlex]
    rfl
  · rw [houtput, hafter, hwritten]
  · rw [(hfault _ (congrArg Prod.fst hafter)).2]
    rfl

end Scriptlet
