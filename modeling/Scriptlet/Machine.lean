import Scriptlet.Environment
import Scriptlet.Function
import Scriptlet.Machine.Input
import Scriptlet.Machine.Sink
import Scriptlet.Random.WordSource

/-!
# Machines

A machine is everything that a running program can see or change: the global bindings, the frames of
the active calls, the function table, the output, the input, the random words and the depth limit.
It also keeps a log of what happened.

* `Machine.current` and `Machine.bind` look at and change the scope of the running statement.
* `Machine.openFrames` is how many more frames may be opened.
* `Evaluation` is a computation on a machine that may end in a fault; the machine's changes stay.
-/

namespace Scriptlet

/-- What the log of a machine records. -/
inductive Event where
  /-- A statement is about to be executed, with `depth` frames active. -/
  | executing (line depth : Nat) (statement : String)
  /-- A function is about to be defined. -/
  | defining (function : String) (arity : Nat)
  /-- A definition took the place of another one of the same name. -/
  | redefined (function : String)
  /-- A function is about to be called; `depth` counts the frames with its own one. -/
  | calling (function : String) (depth : Nat)
  deriving DecidableEq

/-- The state of a running program. -/
structure Machine where
  /-- The bindings outside all calls. -/
  globals : Environment
  /-- The bindings of the active calls, the innermost first. `Machine.current` is the first of
  them. -/
  frames : List Environment
  /-- The functions defined so far. -/
  functions : FunctionTable
  /-- Where the program writes. -/
  output : Sink
  /-- What the program has not read yet. -/
  input : List UInt8
  /-- Where random integers come from. -/
  words : Random.WordSource
  /-- How many frames may be active at once. No evaluation changes it. -/
  depthLimit : Nat
  /-- What happened, the newest event first. -/
  log : List Event

namespace Machine

/-- The depth limit of a machine for which `Settings` names none. -/
def defaultDepthLimit : Nat := 1000

/-- A machine on which nothing has happened: no bindings, no frames, no functions and an empty
log. -/
def fresh (output : Sink) (input : List UInt8) (words : Random.WordSource) (depthLimit : Nat) :
    Machine where
  globals := .empty
  frames := []
  functions := .empty
  output := output
  input := input
  words := words
  depthLimit := depthLimit
  log := []

/-- The number of active frames. -/
def depth (machine : Machine) : Nat :=
  machine.frames.length

/-- How many more frames may be opened before `depthLimit` is reached. -/
def openFrames (machine : Machine) : Nat :=
  machine.depthLimit - machine.depth

/-- The scope of the running statement: the innermost frame, or the globals outside all calls. -/
def current (machine : Machine) : Environment :=
  machine.frames.head?.getD machine.globals

/-- Binds `name` to `value` in the scope that `current` looks at. -/
def bind (machine : Machine) (name : String) (value : Value) : Machine :=
  match machine.frames with
  | [] => { machine with globals := machine.globals.define name value }
  | frame :: frames => { machine with frames := frame.define name value :: frames }

/-- Opens `frame`, which is then the scope of the running statement. -/
def push (machine : Machine) (frame : Environment) : Machine :=
  { machine with frames := frame :: machine.frames }

/-- Drops the innermost frame. -/
def pop (machine : Machine) : Machine :=
  { machine with frames := machine.frames.tail }

/-- Adds `event` to the log. -/
def record (machine : Machine) (event : Event) : Machine :=
  { machine with log := event :: machine.log }

@[simp]
theorem depth_bind (machine : Machine) (name : String) (value : Value) :
    (machine.bind name value).depth = machine.depth := by
  unfold bind depth
  split <;> simp [*]

/-- What `bind` does as seen by `current`, with a frame or without one. -/
@[simp]
theorem current_bind (machine : Machine) (name : String) (value : Value) :
    (machine.bind name value).current = machine.current.define name value := by
  unfold bind current
  split <;> simp [*]

end Machine

/-- A computation on a machine. It gives a value or a fault, and in both cases the machine
after it. -/
abbrev Evaluation := EStateM Fault Machine

namespace Evaluation

variable {α : Type}

/-- Ends the evaluation with `cause` at `line`. The statement is named later, by `within`. -/
def fail (cause : Fault.Cause) (line : Nat) : Evaluation α :=
  throw ⟨cause, line, none⟩

/-- The value of a computation without effects, or its cause as a fault at `line`. -/
def ofCause (line : Nat) : Except Fault.Cause α → Evaluation α
  | .ok value => pure value
  | .error cause => fail cause line

/-- Adds `event` to the log of the machine. -/
def record (event : Event) : Evaluation Unit :=
  modify fun machine => machine.record event

/-- Runs `body` with `frame` as the innermost frame, which is dropped again however `body`
ends. -/
def inFrame (frame : Environment) (body : Evaluation α) : Evaluation α := fun machine =>
  match body (machine.push frame) with
  | .ok value machine => .ok value machine.pop
  | .error fault machine => .error fault machine.pop

/-- Runs `body` as part of `statement`, which a fault in it then names. -/
def within (statement : Statement) (body : Evaluation α) : Evaluation α := fun machine =>
  match body machine with
  | .ok value machine => .ok value machine
  | .error fault machine => .error (fault.within statement) machine

end Evaluation

end Scriptlet
