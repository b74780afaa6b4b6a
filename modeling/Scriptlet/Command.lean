import Scriptlet.Command.File
import Scriptlet.Script
import Scriptlet.Settings
import Scriptlet.Syntax.Printed

/-!
# The command line

The command shows the tokens of a script, shows its statements, or runs it. It reads one file and
the standard input, writes to the standard output and to the diagnostics, and ends with a status.

* `CommandLine` is what the command is told, and `Surroundings` what it finds.
* `Report` is what it leaves behind.
* `CommandLine.report` is the command.

A script is run on a stack of its own, of the size `stackSize`, and the system may refuse to make
one. Which sizes are refused is a matter of the system, not of the language: `addressSpace`,
`freeSpace` and `stackRefusal?` give the rule of 64-bit Linux (x86-64), with its wording. On another
system the same depth limit may be accepted, or refused in other words.
-/

namespace Scriptlet

/-- What the command is told: its `arguments` and the two variables that `Settings` is read
from. -/
structure CommandLine where
  /-- The name under which the command was called. -/
  program : String
  /-- The arguments after the name. -/
  arguments : List String
  /-- The text of the variable `Settings.seedVariable`, if it is set. -/
  seed : Option String
  /-- The text of the variable `Settings.depthVariable`, if it is set. -/
  depth : Option String

/-- The file that `line.report` may read: the last of one or two arguments. -/
def CommandLine.fileName? (line : CommandLine) : Option String :=
  match line.arguments with
  | [name] | [_, name] => some name
  | _ => none

/-- What the command finds around it. The files are given by `readFile` alone, so the report
depends on nothing but the surroundings. -/
structure Surroundings where
  /-- What reading the file of a given name gives. -/
  readFile : String → Except FileError String
  /-- The standard input. -/
  input : List UInt8
  /-- The standard output. -/
  output : Sink
  /-- Random words for a script without a seed. -/
  words : Random.WordSource

/-- What the command leaves behind. -/
structure Report where
  /-- The status with which it ends: zero, or one of the codes below. -/
  code : Nat
  /-- The standard output. -/
  output : Sink
  /-- The diagnostics. -/
  diagnostics : String
  /-- Whether the script asked for more input than `Surroundings.input` held. -/
  awaitsInput : Bool

namespace Report

/-- The report with the status `code` of a command that writes nothing but `messages`, each on
a line of its own. -/
def ofDiagnostics (code : Nat) (output : Sink) (messages : List String) : Report where
  code := code
  output := output
  diagnostics := String.join (messages.map (· ++ "\n"))
  awaitsInput := false

/-- The same report with the line `message` before its `diagnostics`. -/
def after (message : String) (report : Report) : Report :=
  { report with diagnostics := message ++ "\n" ++ report.diagnostics }

/-- The status when the arguments or the variables of a `CommandLine` are not understood. -/
def usageError : Nat := 64

/-- The status when a script has a lexical or a syntax error. -/
def dataError : Nat := 65

/-- The status when `Surroundings.readFile` fails. -/
def noInput : Nat := 66

/-- The status when `stackRefusal?` gives a reason. -/
def systemError : Nat := 71

/-- The status when the standard output cannot be written. -/
def outputError : Nat := 74

end Report

/-- The size of the address space of a process on 64-bit Linux (x86-64), where an address has
47 bits: 128 tebibytes. This constant, `freeSpace` and `stackRefusal?` describe that system
only. -/
def addressSpace : Nat := 128 * 1024 * 1024 * 1024 * 1024

/-- The largest part of `addressSpace` that is free there. That system loads a program behind
two thirds of the address space, so a stack has its place in front of the program. -/
def freeSpace : Nat := addressSpace * 2 / 3

/-- Why 64-bit Linux refuses a stack of `size` bytes, if it does: the size and a guard page
must have 64 bits, which is `EINVAL` (22) otherwise, and they must fit into `freeSpace`, which
is `EAGAIN` (11) otherwise. Other systems draw the line elsewhere and in other words. -/
def stackRefusal? (size : Nat) : Option String :=
  let guarded := size / 64 * 64 + 4096
  if UInt64.size ≤ guarded then some "Invalid argument (os error 22)"
  else if freeSpace < guarded then some "Resource temporarily unavailable (os error 11)"
  else none

/-- Shows the items of a token stream in order: the text of a token on `output`, the message
of an error among the diagnostics. `failed` says whether there was an error before. A refused
write ends it. -/
def showItems (output : Sink) (failed : Bool) : List TokenItem → Report
  | [] => .ofDiagnostics (if failed then Report.dataError else 0) output []
  | .error error :: rest => (showItems output true rest).after error.message
  | .ok token :: rest =>
    match output.writeLine (.string token.text) with
    | (output, none) => showItems output failed rest
    | (output, some _) => .ofDiagnostics Report.outputError output []

/-- Shows the statements of `source` as `Statement.printed`, one on a line, or the errors of
`readSource` that keep it from being a program. -/
def showStatements (output : Sink) (source : String) : Report :=
  match readSource source with
  | .ok program =>
    let output := program.foldl
      (fun output statement => (output.writeLine (.string statement.printed)).1) output
    .ofDiagnostics 0 output []
  | .error (.lexical errors) =>
    .ofDiagnostics Report.dataError output (errors.map LexicalError.message)
  | .error error => .ofDiagnostics error.exitCode output [error.message]

/-- The machine on which a script is run: `Machine.fresh` with the words of `settings.seed`,
or with `surroundings.words` when there is no seed. -/
def Surroundings.machine (surroundings : Surroundings) (settings : Settings) : Machine :=
  .fresh surroundings.output surroundings.input
    (match settings.seed with
    | some seed => .seeded (UInt64.ofNat seed)
    | none => surroundings.words)
    settings.depthLimit

/-- Whether an error is `TransferError.endOfInput`, a read without input. -/
def ScriptError.isEndOfInput : ScriptError → Bool
  | .runtime fault => fault.cause == .transfer .endOfInput
  | _ => false

/-- Runs `source` by `runSource` on `surroundings.machine settings`, unless `stackRefusal?`
refuses the stack for its depth limit. After an error the output is flushed before the error
is shown. -/
def runScript (surroundings : Surroundings) (settings : Settings) (source : String) : Report :=
  match stackRefusal? (stackSize settings.depthLimit) with
  | some reason =>
    .ofDiagnostics Report.systemError surroundings.output
      ["Failed to start evaluation thread: " ++ reason]
  | none =>
    match runSource source (surroundings.machine settings) with
    | (.ok _, machine) => .ofDiagnostics 0 machine.output []
    | (.error error, machine) =>
      let flushFailure :=
        match machine.output.flushRefusal with
        | some reason => ["Failed to flush output: " ++ reason]
        | none => []
      { Report.ofDiagnostics error.exitCode machine.output (flushFailure ++ [error.message]) with
        awaitsInput := error.isEndOfInput }

/-- Reads the file `name` and goes on with `next` on its text; a file that cannot be read ends
the command with `Report.noInput`. -/
def Surroundings.withFile (surroundings : Surroundings) (name : String) (next : String → Report) :
    Report :=
  match surroundings.readFile name with
  | .ok source => next source
  | .error error =>
    .ofDiagnostics Report.noInput surroundings.output
      ["Failed to read file " ++ name ++ ": " ++ error.text]

/-- What the command named `command` does with the file `name`. Only `run` looks at the
variables, and it does so before it reads the file. -/
def CommandLine.perform (line : CommandLine) (surroundings : Surroundings) (command name : String) :
    Report :=
  match command with
  | "tokenize" =>
    surroundings.withFile name fun source =>
      showItems surroundings.output false (tokenStream source)
  | "parse" => surroundings.withFile name (showStatements surroundings.output)
  | "run" =>
    match Settings.ofVariables line.seed line.depth with
    | .ok settings => surroundings.withFile name (runScript surroundings settings)
    | .error error => .ofDiagnostics Report.usageError surroundings.output [error.message]
  | other =>
    .ofDiagnostics Report.usageError surroundings.output ["Unknown command: " ++ other]

/-- The command. A file alone is run; any other number of arguments than one or two gives the
usage line. -/
def CommandLine.report (line : CommandLine) (surroundings : Surroundings) : Report :=
  match line.arguments with
  | [name] => line.perform surroundings "run" name
  | [command, name] => line.perform surroundings command name
  | _ =>
    .ofDiagnostics Report.usageError surroundings.output
      ["Usage: " ++ line.program ++ " [tokenize|parse|run] <filename>"]

end Scriptlet
