import Scriptlet.Machine
import Scriptlet.Text.Blank

/-!
# Settings

Two variables choose how a script is run: the seed of its random integers and the limit of its call
depth. Both are unsigned integers of 64 bits in decimal notation.

* `readUnsigned` reads such an integer, or says why it cannot.
* `Settings.ofVariables` reads both variables.
* `stackSize` is the stack that a depth limit needs.
-/

namespace Scriptlet

/-- Why `readUnsigned` refuses a text. -/
inductive UnsignedError where
  | empty
  | invalidDigit
  | tooLarge
  deriving DecidableEq

/-- The wording of the reason. -/
def UnsignedError.text : UnsignedError → String
  | .empty => "cannot parse integer from empty string"
  | .invalidDigit => "invalid digit found in string"
  | .tooLarge => "number too large to fit in target type"

/-- The number of unsigned integers of 64 bits. -/
def unsignedCount : Nat := UInt64.size

/-- Reads decimal digits behind those that make up `number`. The first character that is no
digit, or at which the number reaches `unsignedCount`, decides. -/
def readDigits (number : Nat) : List Char → Except UnsignedError Nat
  | [] => .ok number
  | c :: text =>
    if c.isDigit then
      let extended := 10 * number + (c.toNat - '0'.toNat)
      if extended < unsignedCount then readDigits extended text else .error .tooLarge
    else .error .invalidDigit

/-- Reads an unsigned integer: digits, with a plus sign before them or not. -/
def readUnsigned (text : List Char) : Except UnsignedError Nat :=
  match text with
  | [] => .error .empty
  | ['+'] => .error .invalidDigit
  | '+' :: digits => readDigits 0 digits
  | digits => readDigits 0 digits

/-- How a script is run. -/
structure Settings where
  /-- The seed of the random integers; without one they come from `Surroundings.words`. -/
  seed : Option Nat
  /-- How many calls may be active at once: `Machine.depthLimit` of the machine of the run. -/
  depthLimit : Nat
  deriving DecidableEq

/-- Why the settings cannot be read: a variable, its text, and what is wrong with the text. -/
structure SettingsError where
  /-- The name of the variable, `seedVariable` or `depthVariable`. -/
  name : String
  /-- The text of the variable, with its blanks. -/
  text : String
  /-- What `readUnsigned` found wrong with the text between the blanks. -/
  cause : UnsignedError
  deriving DecidableEq

/-- The message of a settings error. -/
def SettingsError.message (error : SettingsError) : String :=
  error.name ++ " must be an unsigned integer, got '" ++ error.text ++ "': " ++ error.cause.text

namespace Settings

/-- The variable that holds the seed. -/
def seedVariable : String := "TPLANG_SEED"

/-- The variable that holds the depth limit. -/
def depthVariable : String := "TPLANG_MAX_DEPTH"

/-- The settings when no variable is set. -/
def default : Settings := ⟨none, Machine.defaultDepthLimit⟩

/-- Reads the variable called `name`, without the blanks around its text. An unset variable
has no number. -/
def readVariable (name : String) : Option String → Except SettingsError (Option Nat)
  | none => .ok none
  | some text =>
    match readUnsigned (Text.trim text.toList) with
    | .ok number => .ok (some number)
    | .error cause => .error ⟨name, text, cause⟩

/-- Reads the settings from the texts of both variables. The seed is looked at first, so of
two refused texts its one is reported. -/
def ofVariables (seed depth : Option String) : Except SettingsError Settings := do
  let seed ← readVariable seedVariable seed
  let depth ← readVariable depthVariable depth
  return ⟨seed, depth.getD default.depthLimit⟩

end Settings

/-- The stack in bytes that evaluation needs under `depthLimit`: a share for each call, at
least eight mebibytes, and at most what 64 bits can say. -/
def stackSize (depthLimit : Nat) : Nat :=
  max (min (depthLimit * (256 * 1024)) (unsignedCount - 1)) (8 * 1024 * 1024)

theorem Settings.ofVariables_none : Settings.ofVariables none none = .ok Settings.default := rfl

end Scriptlet
