/-!
# Source files

Reading a source file gives its text or the reason why there is none.

* `FileError` lists the reasons, in the words of the operating system.
* `Folder` is a tree of files, and `Place` is a folder in such a tree.
* `Place.read` follows a path part by part and reads the file that it leads to.
-/

namespace Scriptlet

/-- Why a file cannot be read as text. -/
inductive FileError where
  | missing
  | notAFolder
  | isFolder
  | nameTooLong
  | malformedText
  /-- Any other reason, in its own words. -/
  | other (reason : String)
  deriving DecidableEq

/-- The wording of the reason, as the message of `Surroundings.withFile` ends with it. -/
def FileError.text : FileError → String
  | .missing => "No such file or directory (os error 2)"
  | .notAFolder => "Not a directory (os error 20)"
  | .isFolder => "Is a directory (os error 21)"
  | .nameTooLong => "File name too long (os error 36)"
  | .malformedText => "stream did not contain valid UTF-8"
  | .other reason => reason

/-- The text of a file with the given bytes, or `FileError.malformedText` when they are not
UTF-8. -/
def textOfFile (bytes : ByteArray) : Except FileError String :=
  match String.fromUTF8? bytes with
  | some text => .ok text
  | none => .error .malformedText

/-- What a name in a folder stands for. -/
inductive FolderEntry where
  | file (bytes : ByteArray)
  | folder (entries : List (String × FolderEntry))

/-- The entries of a folder by their names. -/
abbrev Folder := List (String × FolderEntry)

/-- A folder with its surroundings, from which `Place.follow` can go up and down. -/
structure Place where
  /-- The folder itself. -/
  here : Folder
  /-- The folders above it, the nearest first. -/
  above : List Folder

namespace Place

/-- The longest name that `follow` accepts, in bytes. -/
def longestName : Nat := 255

/-- The longest path that `read` accepts, in bytes. -/
def longestPath : Nat := 4095

/-- The folder above. Nothing is above `place.root`, which leads to itself. -/
def up (place : Place) : Place :=
  match place.above with
  | [] => place
  | folder :: above => ⟨folder, above⟩

/-- The outermost folder of `place`. -/
def root (place : Place) : Place :=
  ⟨place.above.getLastD place.here, []⟩

/-- The folder `folder` inside of `place.here`. -/
def down (place : Place) (folder : Folder) : Place :=
  ⟨folder, place.here :: place.above⟩

/-- Follows the parts of a path from `place`. An empty part and `.` stay where they are, and
`..` goes up. A name is refused for its length before it is looked up in `place.here`, and a
file before anything that follows it. -/
def follow (place : Place) : List String → Except FileError String
  | [] => .error .isFolder
  | part :: rest =>
    if part = "" ∨ part = "." then follow place rest
    else if part = ".." then follow place.up rest
    else if longestName < part.utf8ByteSize then .error .nameTooLong
    else
      match place.here.lookup part with
      | none => .error .missing
      | some (.folder entries) => follow (place.down entries) rest
      | some (.file bytes) => if rest.isEmpty then textOfFile bytes else .error .notAFolder

/-- Reads the file at `path`, which starts from `place.root` when a slash is its first
character, and from `place` otherwise. The empty path leads nowhere. -/
def read (place : Place) (path : String) : Except FileError String :=
  if path = "" then .error .missing
  else if longestPath < path.utf8ByteSize then .error .nameTooLong
  else
    follow (if path.startsWith "/" then place.root else place)
      ((path.split (· == '/')).toList.map (·.toString))

end Place

/-- The outermost folder of a system: the folders that every system has, with nothing in them
but the null device, which reads as an empty file. -/
def systemFolder : Folder :=
  ("dev", .folder [("null", .file .empty)]) ::
    ["bin", "boot", "etc", "home", "lib", "media", "mnt", "opt", "proc", "run", "sbin", "srv",
      "sys", "tmp", "usr", "var"].map fun name => (name, .folder [])

/-- The folder `folder` among the temporary ones of `systemFolder`. -/
def Place.temporary (folder : Folder) : Place :=
  ⟨folder, [[], systemFolder]⟩

end Scriptlet
