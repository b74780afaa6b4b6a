import Scriptlet.Value

/-!
# Output sinks

A sink keeps the bytes that it was given. It may have room for finitely many bytes only; it then
keeps what fits and refuses the rest, in words of its own. A sink may also refuse to be flushed.

* `Sink.writeLine` writes the text of a value and a newline.
* `Sink.unlimited`, `Sink.limited` and `Sink.fullDevice` are the sinks in use.
-/

namespace Scriptlet

/-- An output sink: the bytes it took, and how it behaves when it is full or flushed. -/
structure Sink where
  /-- The bytes that were taken. -/
  written : ByteArray
  /-- How many more bytes are taken; `none` when there is no end. -/
  room : Option Nat
  /-- The size of the buffer in which a line waits for its end. `holdsBack` is the only use of
  it. -/
  lineBuffer : Nat
  /-- What a refused write says. -/
  refusal : String
  /-- What a flush says when it is refused; `none` when it is not. -/
  flushRefusal : Option String

namespace Sink

/-- A sink that takes everything and can always be flushed. -/
def unlimited : Sink where
  written := .empty
  room := none
  lineBuffer := 0
  refusal := ""
  flushRefusal := none

/-- A sink that takes `room` bytes and then refuses with the words `refusal`. -/
def limited (room : Nat) (refusal : String) : Sink :=
  { unlimited with room := some room, refusal := refusal }

/-- A device without space behind a buffer for one line. -/
def fullDevice (refusal : String) : Sink :=
  { limited 0 refusal with lineBuffer := 1024 }

/-- The sink that also refuses to be flushed, in the words `reason`. -/
def refusingFlush (sink : Sink) (reason : String) : Sink :=
  { sink with flushRefusal := some reason }

/-- Whether the start of the refused line of `value` is still in the line buffer, so that a
flush tries to write it again. A `firstRun` that is as long as the buffer goes past it, and an
empty one leaves nothing. -/
def holdsBack (sink : Sink) (value : Value) : Bool :=
  0 < value.firstRun.utf8ByteSize && value.firstRun.utf8ByteSize < sink.lineBuffer

/-- Writes the text of `value` and a newline. Gives the sink after it and, when not all bytes
were taken, its `refusal`; what fits is kept. -/
def writeLine (sink : Sink) (value : Value) : Sink × Option String :=
  let bytes := (value.text ++ "\n").toUTF8
  match sink.room with
  | none => ({ sink with written := sink.written ++ bytes }, none)
  | some room =>
    if bytes.size ≤ room then
      ({ sink with written := sink.written ++ bytes, room := some (room - bytes.size) }, none)
    else
      ({ sink with
          written := sink.written ++ bytes.extract 0 room
          room := some 0
          flushRefusal :=
            if sink.holdsBack value then some sink.refusal else sink.flushRefusal },
        some sink.refusal)

theorem writeLine_of_room_eq_none {sink : Sink} (h : sink.room = none) (value : Value) :
    sink.writeLine value =
      ({ sink with written := sink.written ++ (value.text ++ "\n").toUTF8 }, none) := by
  unfold writeLine
  rw [h]

/-- A sink that took a whole line is flushed as before. -/
theorem flushRefusal_of_writeLine {sink after : Sink} {value : Value}
    (h : sink.writeLine value = (after, none)) : after.flushRefusal = sink.flushRefusal := by
  unfold writeLine at h
  split at h
  · rw [← (Prod.mk.inj h).1]
  · dsimp only at h
    split at h
    · rw [← (Prod.mk.inj h).1]
    · cases (Prod.mk.inj h).2

end Sink

end Scriptlet
