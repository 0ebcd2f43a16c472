import Pinpoint.Session
import Pinpoint.Span.Json

/-!
# Loading trees

A tree is loaded from a file that holds its document. Every error says which file it was.
-/

namespace Pinpoint

/-- Why a tree cannot be loaded. -/
inductive TreeError where
  | unreadable (file : Path) (why : ReadError)
  | malformed (file : Option Path) (why : Json.Fault)
deriving Repr, DecidableEq

/-- Words what is wrong with a document, as far as it is one. -/
def Json.Fault.reason : Json.Fault → String
  | .ended => "the document ends too early"
  | .malformed => "the document is malformed"
  | .mismatch what => what.message

namespace TreeError

/-- The reason behind the error, by itself. -/
def cause : TreeError → String
  | unreadable _ why => why.message
  | malformed _ why => why.reason

/-- Words the error with its reason. -/
def message : TreeError → String
  | unreadable file why =>
    "failed to read node tree from " ++ file.display ++ ": " ++ why.message
  | malformed (some file) why =>
    "malformed node tree in " ++ file.display ++ ": " ++ why.reason
  | malformed none why => "malformed node tree: " ++ why.reason

end TreeError

namespace Span

/-- Reads a tree from a text. -/
def ofString (source : String) : Except TreeError Span :=
  (ofJson? source).mapError (.malformed none)

/-- Reads a tree from what a file holds. -/
def ofContent (file : Path) : Except ReadError String → Except TreeError Span
  | .error why => .error (.unreadable file why)
  | .ok source => (ofJson? source).mapError (.malformed (some file))

/-- The session of reading a tree from a file. -/
def loading (file : Path) : Session (Except TreeError Span) := do
  return ofContent file (← Session.read file)

/-- Reads a tree from a file. -/
def load (read : TextSource) (file : Path) : Except TreeError Span := (loading file).result read

end Span

end Pinpoint
