import Scriptlet.Evaluation
import Scriptlet.Syntax.StatementReading
import Scriptlet.Token.Stream

/-!
# Scripts

A script is the source text of a program. It is read as a whole before anything in it is executed,
so a script with a lexical or a syntax error changes nothing.

* `readSource` turns a source text into a program.
* `runSource` runs it on a machine.
* `ScriptError` gathers the three ways in which a script can fail.
-/

namespace Scriptlet

/-- Why a script failed. The three ways are tried in this order. -/
inductive ScriptError where
  /-- The source text has lexical errors. -/
  | lexical (errors : List LexicalError)
  /-- The tokens are no program. -/
  | grammatical (error : SyntaxError)
  /-- The program ended in a fault. -/
  | runtime (fault : Fault)

namespace ScriptError

/-- The message of an error, one line for each lexical error. -/
def message : ScriptError → String
  | .lexical errors => String.intercalate "\n" (errors.map LexicalError.message)
  | .grammatical error => error.message
  | .runtime fault => fault.message

/-- The status with which the command `run` ends after an error. -/
def exitCode : ScriptError → Nat
  | .lexical _ => 65
  | .grammatical _ => 65
  | .runtime _ => 70

end ScriptError

/-- The program that `source` is, by `lex` and `readProgram`. Any lexical error comes before a
syntax error. -/
def readSource (source : String) : Except ScriptError Program :=
  match lex source with
  | (tokens, []) =>
    match readProgram tokens with
    | .ok program => .ok program
    | .error error => .error (.grammatical error)
  | (_, errors) => .error (.lexical errors)

/-- Runs `source` on `machine`. Gives the value of `Program.run` or the error, and the machine
afterwards. -/
def runSource (source : String) (machine : Machine) : Except ScriptError Value × Machine :=
  match readSource source with
  | .error error => (.error error, machine)
  | .ok program =>
    match program.run machine with
    | .ok value machine => (.ok value, machine)
    | .error fault machine => (.error (.runtime fault), machine)

/-- A source text that `readSource` refuses leaves the machine as it is. -/
theorem runSource_of_readSource_error {source : String} {error : ScriptError}
    (h : readSource source = .error error) (machine : Machine) :
    runSource source machine = (.error error, machine) := by
  simp [runSource, h]

end Scriptlet
