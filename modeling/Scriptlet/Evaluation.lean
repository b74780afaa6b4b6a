import Scriptlet.Environment.Interpolation
import Scriptlet.Machine
import Scriptlet.Random.Draw
import Scriptlet.Value.Arithmetic

/-!
# Evaluation

Expressions and statements are evaluated in the scope of the running statement. A call runs the body
of a function in a frame of its own.

Evaluation has two layers. Expressions and statements are evaluated by recursion on their structure,
with the meaning of a call as a parameter; calls are evaluated by recursion on the number of frames
that may still be opened. So every evaluation ends, and the depth limit is reached exactly when that
number is zero.

* `Expression.evaluateWith` and `Statement.executeWith` are the first layer.
* `Function.invoke` is the second layer.
* `Expression.evaluate`, `Statement.execute`, `Function.call` and `Program.run` are the entry
  points.
-/

namespace Scriptlet

/-- What a call means: the function, its arguments and the line of the call give a
computation. -/
abbrev Invocation := Function → List Value → Nat → Evaluation Value

mutual

/-- Evaluates an expression, with `invoke` as the meaning of its calls. A name and a string
are looked up in the current scope of the machine. -/
def Expression.evaluateWith (invoke : Invocation) : Expression → Evaluation Value
  | .literal value => pure (.integer value)
  | .string text => do
    return .string ((← get).current.interpolate text)
  | .identifier name line => do
    match (← get).current.find? name with
    | some value => pure value
    | none => Evaluation.fail (.undefinedVariable name) line
  | .binary op left right line => do
    let leftValue ← left.evaluateWith invoke
    let rightValue ← right.evaluateWith invoke
    Evaluation.ofCause line (op.apply leftValue rightValue)
  | .list items => do
    return .list (← evaluateAllWith invoke items)
  | .call name arguments line => do
    match (← get).functions.find? name with
    | none => Evaluation.fail (.undefinedFunction name) line
    | some function =>
      if arguments.length ≠ function.arity then
        Evaluation.fail (.arityMismatch name function.arity arguments.length) line
      else
        let values ← evaluateAllWith invoke arguments
        invoke function values line

/-- Evaluates expressions from left to right by `evaluateWith`. -/
def Expression.evaluateAllWith (invoke : Invocation) : List Expression → Evaluation (List Value)
  | [] => pure []
  | e :: es => do
    let value ← e.evaluateWith invoke
    let values ← evaluateAllWith invoke es
    return value :: values

end

/-- Binds `name` in the scope of the running statement and gives the bound `value`. -/
def Evaluation.bindName (name : String) (value : Value) : Evaluation Value := do
  modify fun machine => machine.bind name value
  return value

/-- Writes `value` on a line of its own, by `Sink.writeLine`. What the sink took stays in it
also when it refuses the rest. -/
def Evaluation.writeValue (value : Value) (line : Nat) : Evaluation Unit := do
  let machine ← get
  let (output, refusal) := machine.output.writeLine value
  set { machine with output := output }
  match refusal with
  | none => pure ()
  | some reason => Evaluation.fail (.transfer (.refused reason)) line

/-- Reads a line of the input, by `Input.readLine`. The line is taken from the input also when
it is not text. -/
def Evaluation.readLine (line : Nat) : Evaluation String := do
  let machine ← get
  let (result, input) := Input.readLine machine.input
  set { machine with input := input }
  match result with
  | .ok text => pure text
  | .error error => Evaluation.fail (.transfer error) line

/-- Draws an integer between zero and `bound`, by `Random.draw`; no word is taken when `bound`
is negative or no integer. -/
def Evaluation.drawBelow (bound : Value) (line : Nat) : Evaluation Value := do
  match bound with
  | .integer n =>
    if 0 ≤ n then
      let machine ← get
      let (result, words) := Random.draw n.toNat machine.words
      set { machine with words := words }
      return .integer result
    else Evaluation.fail (.negativeBound n) line
  | other => Evaluation.fail (.boundKind other.kind) line

/-- Defines `function`, in place of the one of its name if there is one. The log tells the
definition, and afterwards whether it was a redefinition. -/
def Evaluation.defineFunction (function : Function) : Evaluation Unit := do
  Evaluation.record (.defining function.name function.arity)
  let machine ← get
  set { machine with functions := machine.functions.define function }
  if (machine.functions.find? function.name).isSome then
    Evaluation.record (.redefined function.name)

/-- Does what a statement says, with `invoke` as the meaning of its calls. The line of a fault
is that of the statement or of the operand in which it happens. -/
def Statement.effectWith (invoke : Invocation) : Statement → Evaluation Value
  | .assign name value _ => do
    Evaluation.bindName name (← value.evaluateWith invoke)
  | .write value line => do
    let value ← value.evaluateWith invoke
    Evaluation.writeValue value line
    return value
  | .read name line => do
    Evaluation.bindName name (.string (← Evaluation.readLine line))
  | .random name bound line => do
    let bound ← bound.evaluateWith invoke
    Evaluation.bindName name (← Evaluation.drawBelow bound line)
  | .define name parameters body _ => do
    Evaluation.defineFunction ⟨name, parameters, body⟩
    return .nil
  | .evaluate value _ => value.evaluateWith invoke

/-- Executes `statement`: an event `Event.executing` is recorded, `effectWith` does what it
says, and a fault in it names it. -/
def Statement.executeWith (invoke : Invocation) (statement : Statement) : Evaluation Value := do
  Evaluation.record (.executing statement.line (← get).depth statement.description)
  Evaluation.within statement (statement.effectWith invoke)

/-- Executes statements in order. Gives the value of the last one, or `last` if there is none. -/
def Program.executeWith (invoke : Invocation) (last : Value) : Program → Evaluation Value
  | [] => pure last
  | statement :: rest => do
    let value ← statement.executeWith invoke
    Program.executeWith invoke value rest

namespace Function

/-- Runs the body of `function` in a frame that binds its parameters to `arguments`. -/
def enterWith (invoke : Invocation) (function : Function) (arguments : List Value) :
    Evaluation Value :=
  Evaluation.inFrame (.ofParameters function.parameters arguments)
    (Program.executeWith invoke .nil function.body)

/-- A call when `openFrames` more frames may be opened: with none left it is refused,
otherwise the body runs with one frame less to open. -/
def invoke : (openFrames : Nat) → Invocation
  | 0, _, _, line => do
    Evaluation.fail (.depthExceeded (← get).depthLimit) line
  | openFrames + 1, function, arguments, _ => do
    Evaluation.record (.calling function.name ((← get).depth + 1))
    function.enterWith (invoke openFrames) arguments

/-- Calls `function` without regard to its arity and to the depth limit. Calls inside it
respect both. -/
def call (function : Function) (arguments : List Value) : Evaluation Value := do
  function.enterWith (invoke ((← get).openFrames - 1)) arguments

end Function

/-- Evaluates an expression in the current scope: `evaluateWith` with calls that may open as
many frames as `Machine.openFrames` allows. -/
def Expression.evaluate (expression : Expression) : Evaluation Value := do
  expression.evaluateWith (Function.invoke (← get).openFrames)

/-- Executes a statement in the current scope: `executeWith` with calls that may open as many
frames as `Machine.openFrames` allows. -/
def Statement.execute (statement : Statement) : Evaluation Value := do
  statement.executeWith (Function.invoke (← get).openFrames)

/-- Flushes the output. A refused flush belongs to no statement, and its line is zero. -/
def Evaluation.flush : Evaluation Unit := do
  match (← get).output.flushRefusal with
  | none => pure ()
  | some reason => Evaluation.fail (.transfer (.refused reason)) 0

/-- Runs a program: `executeWith` executes its statements in order up to the first fault, and
then `Evaluation.flush` flushes the output. Gives the value of the last statement. -/
def Program.run (program : Program) : Evaluation Value := do
  let value ← Program.executeWith (Function.invoke (← get).openFrames) .nil program
  Evaluation.flush
  return value

end Scriptlet
