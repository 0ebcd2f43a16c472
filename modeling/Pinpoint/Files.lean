import Pinpoint.Path

/-!
# Files to read

`Files` holds what a run can read: directories and files by the steps that lead to them from the
directory of the run. `Files.read?` follows a path step by step, and fails at the first step that
leads nowhere.
-/

namespace Pinpoint

/-- Why a file cannot be read. -/
inductive ReadError where
  | notFound
  | notDirectory
  | isDirectory
  | nameTooLong
  | invalidName
  /-- The bytes of the file are no text. -/
  | notText
  /-- Some other reason, in the system's words. -/
  | other (reason : String)
deriving Repr, DecidableEq

namespace ReadError

/-- Words the reason. -/
def message : ReadError → String
  | notFound => "No such file or directory (os error 2)"
  | notDirectory => "Not a directory (os error 20)"
  | isDirectory => "Is a directory (os error 21)"
  | nameTooLong => "File name too long (os error 36)"
  | invalidName => "file name contained an unexpected NUL byte"
  | notText => "stream did not contain valid UTF-8"
  | other reason => reason

end ReadError

/-- A way to the text of a file. -/
abbrev TextSource := Path → Except ReadError String

/-- A directory entry: a file with its bytes, or a directory without. -/
structure FileEntry where
  steps : List (List UInt8)
  content : Option ByteArray

/-- What a run can read, from its own directory on. -/
structure Files where
  entries : List FileEntry

namespace Files

/-- The steps that a name without dots stands for. -/
def stepsOf (name : Path) : List (List UInt8) :=
  (Path.pieces name.bytes).filter fun piece => !piece.isEmpty

def ofList (files : List (Path × Option ByteArray)) : Files :=
  ⟨files.map fun (name, content) => ⟨stepsOf name, content⟩⟩

/-- What stands at some steps: the bytes of a file, or nothing for a directory. A directory is one
that is listed, or that something listed is in; the run's own directory is always one. -/
def at? (f : Files) (steps : List (List UInt8)) : Option (Option ByteArray) :=
  match f.entries.find? fun entry => entry.steps == steps with
  | some entry => some entry.content
  | none =>
    if steps.isEmpty ∨ f.entries.any fun entry => steps.isPrefixOf entry.steps then some none
    else none

/-- The longest name that a file may have, and the longest path. -/
def maxName : Nat := 255

def maxPath : Nat := 4095

/-- Follows the pieces of a path from the place at some steps. Of the directories above the run's
own nothing is known but that they are there. -/
def follow (f : Files) : Option (List (List UInt8)) → List (List UInt8) →
    Except ReadError (Option (List (List UInt8)))
  | place, [] => .ok place
  | none, piece :: rest =>
    if piece = [] ∨ piece = [Path.dot] ∨ piece = [Path.dot, Path.dot] then follow f none rest
    else .error .notFound
  | some steps, piece :: rest =>
    match f.at? steps with
    | none => .error .notFound
    | some (some _) => .error .notDirectory
    | some none =>
      if piece = [] ∨ piece = [Path.dot] then follow f (some steps) rest
      else if piece = [Path.dot, Path.dot] then
        follow f (if steps.isEmpty then none else some steps.dropLast) rest
      else if maxName < piece.length then .error .nameTooLong
      else follow f (some (steps ++ [piece])) rest

/-- The bytes of a file. -/
def bytes? (f : Files) (p : Path) : Except ReadError ByteArray :=
  if p.bytes.contains 0 then .error .invalidName
  else if p.bytes.isEmpty then .error .notFound
  else if maxPath < p.bytes.length then .error .nameTooLong
  else do
    match ← f.follow (if p.isAbsolute then none else some []) (Path.pieces p.bytes) with
    | none => .error .isDirectory
    | some steps =>
      match f.at? steps with
      | none => .error .notFound
      | some none => .error .isDirectory
      | some (some content) => .ok content

/-- The text of a file. -/
def read? (f : Files) (p : Path) : Except ReadError String := do
  match String.fromUTF8? (← f.bytes? p) with
  | some text => .ok text
  | none => .error .notText

end Files

end Pinpoint
