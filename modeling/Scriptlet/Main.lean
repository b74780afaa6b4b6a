import Scriptlet.Command

/-!
# The program

The command in the surroundings of the system: its environment variables, its files and its standard
streams.

The command is a function of the whole standard input, but a script may ask for a line only after it
has written something. So the command is run on the lines that are there, and when its script asks
for more, on one line more. A longer input changes nothing in front of the read that failed, so only
the output after it is shown.
-/

namespace Scriptlet

/-- The reason that the system gives for an error, in the form of `FileError.text`. -/
def systemReason : IO.Error → String
  | .noFileOrDirectory _ code details
  | .permissionDenied _ code details
  | .inappropriateType _ code details
  | .invalidArgument _ code details
  | .resourceExhausted _ code details
  | .resourceVanished code details
  | .hardwareFault code details
  | .otherError code details => details ++ " (os error " ++ toString code ++ ")"
  | error => toString error

/-- Reads a file of the system, as `Surroundings.readFile` does. -/
def readSystemFile (name : String) : IO (Except FileError String) := do
  try
    return textOfFile (← (← IO.FS.Handle.mk name .read).readBinToEnd)
  catch error =>
    return .error (.other (systemReason error))

/-- Reads a line of `stream` with its newline, behind the bytes in `line` that are read
already. At the end of the stream the line is empty. -/
partial def readLineBytes (stream : IO.FS.Stream) (line : Array UInt8) : IO (List UInt8) := do
  match (← stream.read 1).data[0]? with
  | none => return line.toList
  | some byte =>
    if byte = Input.newline then return (line.push byte).toList
    else readLineBytes stream (line.push byte)

/-- Shows the output of `report` from `position` on. Gives the reason if the standard output
refuses it. -/
def Report.showOutput (report : Report) (position : Nat) : IO (Option String) := do
  let stream ← IO.getStdout
  let written := report.output.written
  try
    stream.write (written.extract position written.size)
    stream.flush
    return none
  catch error =>
    return some (systemReason error)

/-- Runs the command, and runs it again with a further line of input whenever
`Report.awaitsInput` asks for one. `position` is how much of its output is shown already. An
output that cannot be shown is a `Sink.fullDevice`. -/
partial def CommandLine.interact (line : CommandLine) (surroundings : Surroundings)
    (position : Nat) : IO UInt32 := do
  let report := line.report surroundings
  match ← report.showOutput position with
  | some reason =>
    let refused := line.report { surroundings with output := .fullDevice reason }
    IO.eprint refused.diagnostics
    return UInt32.ofNat refused.code
  | none =>
    let further ← if report.awaitsInput then readLineBytes (← IO.getStdin) #[] else pure []
    if further.isEmpty then
      IO.eprint report.diagnostics
      return UInt32.ofNat report.code
    else
      line.interact { surroundings with input := surroundings.input ++ further }
        report.output.written.size

end Scriptlet

open Scriptlet in
/-- Runs the command with its arguments. -/
def main (arguments : List String) : IO UInt32 := do
  let line : CommandLine :=
    ⟨"tplang", arguments, ← IO.getEnv Settings.seedVariable, ← IO.getEnv Settings.depthVariable⟩
  let file ←
    match line.fileName? with
    | some name => readSystemFile name
    | none => pure (.error .missing)
  let words := Random.WordSource.keyed (← IO.getRandomBytes 32)
  line.interact ⟨fun _ => file, [], .unlimited, words⟩ 0
