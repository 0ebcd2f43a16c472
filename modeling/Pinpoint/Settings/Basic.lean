import Pinpoint.Pipeline
import Pinpoint.Text.Blank

/-!
# Settings

Settings list the patchers of a pipeline and say how progress is shown. `Settings.issues` lists
every problem that they have, in the order in which a reader meets them.
-/

namespace Pinpoint

/-- The patchers that settings may name. -/
inductive PatcherKind where
  | pinning
deriving Repr, DecidableEq

namespace PatcherKind

def name : PatcherKind → String
  | pinning => "rebase"

/-- The kinds with their names. -/
def named : List (String × PatcherKind) := [(pinning.name, pinning)]

/-- The patcher of a kind. -/
def patcher : PatcherKind → Patcher
  | pinning => .pinning

end PatcherKind

/-- A patcher of the pipeline, under its name. -/
structure NamedPatcher where
  name : String
  kind : PatcherKind
deriving Repr, DecidableEq

/-- How progress is shown. -/
structure Display where
  /-- The number of glyphs on a line. -/
  width : Nat
  /-- Whether outcomes have their colours. -/
  colors : Bool
deriving Repr, DecidableEq

structure Settings where
  patchers : List NamedPatcher
  display : Display
deriving Repr, DecidableEq

/-- A problem of some settings. -/
inductive Issue where
  | emptyPatcherList
  | missingName (index : Nat)
  | duplicateName (name : String)
  | invalidValue (field reason : String)
deriving Repr, DecidableEq

namespace Issue

/-- Words the problem. -/
def message : Issue → String
  | emptyPatcherList => "pipeline config lists no patchers"
  | missingName index => "patcher #" ++ toString index ++ " has an empty name"
  | duplicateName name => "patcher '" ++ name ++ "' is declared more than once"
  | invalidValue field reason => "invalid value for '" ++ field ++ "': " ++ reason

/-- Words some problems, each on its line. -/
def messages (issues : List Issue) : String := "\n".intercalate (issues.map message)

end Issue

namespace Settings

def defaultPatchers : List NamedPatcher := [⟨"rebase", .pinning⟩]

def defaultDisplay : Display := ⟨80, true⟩

def default : Settings := ⟨defaultPatchers, defaultDisplay⟩

/-- The problems of the names from `index` on, behind names that were `seen`. A blank name is no
name, so it is not a duplicate of another. -/
def nameIssues (index : Nat) (seen : List String) : List NamedPatcher → List Issue
  | [] => []
  | entry :: rest =>
    if Blank.isBlankText entry.name then .missingName index :: nameIssues (index + 1) seen rest
    else if entry.name ∈ seen then
      .duplicateName entry.name :: nameIssues (index + 1) seen rest
    else nameIssues (index + 1) (entry.name :: seen) rest

/-- Every problem of some settings. -/
def issues (s : Settings) : List Issue :=
  (if s.patchers.isEmpty then [.emptyPatcherList] else []) ++ nameIssues 0 [] s.patchers ++
    (if s.display.width = 0 then [.invalidValue "reporter.width" "must be at least 1"] else [])

/-- The pipeline of the patchers that settings list. -/
def pipeline (s : Settings) : Pipeline :=
  .ofList (s.patchers.map fun entry => (entry.name, entry.kind.patcher))

end Settings

end Pinpoint
