import Pinpoint.Session
import Pinpoint.Settings.Toml

/-!
# Loading settings

Settings come from a text, from a file, or from nowhere. A file is loaded as its text is, but every
error says which file it was.
-/

namespace Pinpoint

/-- Why settings cannot be loaded. -/
inductive SettingsError where
  | unreadable (file : Path) (why : ReadError)
  | malformed (file : Option Path) (why : Toml.Fault)
  | invalid (file : Option Path) (issues : List Issue)
deriving Repr, DecidableEq

namespace SettingsError

/-- Says where a text came from, if it came from a file. -/
def origin : Option Path → String
  | some file => " (" ++ file.display ++ ")"
  | none => ""

/-- The reason behind the error, by itself. -/
def cause : SettingsError → String
  | unreadable _ why => why.message
  | malformed _ why => why.reason
  | invalid _ issues => Issue.messages issues

/-- Words the error with its reason. -/
def message : SettingsError → String
  | unreadable file why =>
    "failed to read pipeline config from " ++ file.display ++ ": " ++ why.message
  | malformed file why =>
    "failed to parse pipeline config TOML" ++ origin file ++ ": " ++ why.reason
  | invalid file issues => "invalid pipeline config" ++ origin file ++ ": " ++ Issue.messages issues

/-- Says of an error which file the text came from. -/
def inFile (file : Path) : SettingsError → SettingsError
  | malformed none why => malformed (some file) why
  | invalid none issues => invalid (some file) issues
  | e => e

end SettingsError

namespace Settings

/-- Reads settings from a text, and refuses those with issues. -/
def ofString (source : String) : Except SettingsError Settings :=
  match ofToml? source with
  | .error why => .error (.malformed none why)
  | .ok s => if s.issues.isEmpty then .ok s else .error (.invalid none s.issues)

/-- What loading a file tells of itself. -/
def loadEvent (file : Path) (s : Settings) : Event :=
  ⟨.debug, "jit_rebase::config::loader", "loaded pipeline config",
    [("path", file.display), ("patchers", toString s.patchers.length)]⟩

/-- Reads settings from what a file holds. -/
def ofContent (file : Path) : Except ReadError String → Except SettingsError Settings
  | .error why => .error (.unreadable file why)
  | .ok source => (ofString source).mapError (SettingsError.inFile file)

/-- The session of reading settings from a file. -/
def loading (file : Path) : Session (Except SettingsError Settings) := do
  let found := ofContent file (← Session.read file)
  Session.tell (found.toOption.map (loadEvent file)).toList
  return found

/-- The session of reading settings from a file if there is one. -/
def loadingIfGiven : Option Path → Session (Except SettingsError Settings)
  | some file => loading file
  | none => return .ok default

/-- Reads settings from a file. -/
def load (read : TextSource) (file : Path) : Except SettingsError Settings :=
  (loading file).result read

/-- Reads settings from a file if there is one. -/
def loadIfGiven (read : TextSource) (config : Option Path) : Except SettingsError Settings :=
  (loadingIfGiven config).result read

end Settings

end Pinpoint
