import Scriptlet.Fault

/-!
# Input lines

The input is a list of bytes, read line by line. A line ends after a newline byte or at the end of
the input; a line that is read is taken from the input whether it is well-formed text or not.

* `splitLine` cuts the first line from an input.
* `readLine` reads the first line as text, without its line break.
-/

namespace Scriptlet.Input

/-- The byte that ends a line. -/
def newline : UInt8 := 10

/-- The byte that may stand before `newline` as part of the line break. -/
def carriageReturn : UInt8 := 13

/-- The first line of `input` without its newline, whether a newline follows it, and the input
after it. -/
def splitLine (input : List UInt8) : List UInt8 × Bool × List UInt8 :=
  match input.dropWhile (· != newline) with
  | [] => (input.takeWhile (· != newline), false, [])
  | _ :: rest => (input.takeWhile (· != newline), true, rest)

/-- The line without a `carriageReturn` at its end. -/
def dropCarriageReturn (line : List UInt8) : List UInt8 :=
  if line.getLast? = some carriageReturn then line.dropLast else line

/-- The text that `bytes` encode in UTF-8, if they do. -/
def decode? (bytes : List UInt8) : Option String :=
  String.fromUTF8? ⟨bytes.toArray⟩

/-- Reads the first line of `input` as text. A line that ends in a newline loses it, and one
carriage return before it; an unterminated last line is kept whole. The second component is
the input after the line, which is taken also when it is not text. -/
def readLine (input : List UInt8) : Except TransferError String × List UInt8 :=
  if input.isEmpty then (.error .endOfInput, [])
  else
    let (line, terminated, rest) := splitLine input
    match decode? (if terminated then dropCarriageReturn line else line) with
    | some text => (.ok text, rest)
    | none => (.error .malformedText, rest)

/-- The three parts that `splitLine` gives make up the input. -/
theorem splitLine_append (input : List UInt8) :
    (splitLine input).1 ++ (if (splitLine input).2.1 then [newline] else []) ++
      (splitLine input).2.2 = input := by
  have happend := List.takeWhile_append_dropWhile (p := (· != newline)) (l := input)
  unfold splitLine
  split
  · rename_i h
    rw [h] at happend
    simpa using happend
  · rename_i b rest h
    -- What is left begins with the byte that stopped `takeWhile`.
    have hb : b = newline := by
      have hhead := List.head?_dropWhile_not (· != newline) input
      rw [h] at hhead
      simpa using hhead
    rw [h, hb] at happend
    simpa using happend

end Scriptlet.Input
