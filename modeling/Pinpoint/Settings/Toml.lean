import Pinpoint.Settings.Basic
import Pinpoint.Toml.Reader

/-!
# Settings as TOML documents

Every part of the settings may be left out, and then takes its default. Keys that settings do not
know are passed over.
-/

namespace Pinpoint

open Toml (Entries Value)

namespace NamedPatcher

/-- What an entry is when it is written as an array. -/
def listed : String := "struct PatcherEntry with 2 elements"

/-- Reads the fields of an entry in the order of their keys. -/
def fields : Option String → Option PatcherKind → Entries →
    Except Mismatch (Option String × Option PatcherKind)
  | name, kind, [] => .ok (name, kind)
  | name, kind, (key, v) :: rest =>
    if key = "name" then do fields (some (← v.string)) kind rest
    else if key = "kind" then do fields name (some (← v.choice PatcherKind.named)) rest
    else fields name kind rest

/-- Reads an entry from a table. -/
def ofEntries (entries : Entries) : Except Mismatch NamedPatcher := do
  match ← fields none none entries with
  | (some name, some kind) => .ok ⟨name, kind⟩
  | (none, _) => .error (.missing "name")
  | (some _, none) => .error (.missing "kind")

/-- Reads an entry from an array. -/
def ofItems : List Value → Except Mismatch NamedPatcher
  | [] => .error (.length 0 listed)
  | name :: rest => do
    let name ← name.string
    match rest with
    | [] => .error (.length 1 listed)
    | kind :: _ => return ⟨name, ← kind.choice PatcherKind.named⟩

/-- Reads an entry. -/
def ofValue (v : Value) : Except Mismatch NamedPatcher :=
  match v.entries?, v.items? with
  | some entries, _ => ofEntries entries
  | none, some items => ofItems items
  | none, none => .error (v.mismatch "struct PatcherEntry")

end NamedPatcher

namespace Display

/-- Reads the fields in the order of their keys, over the ones that `d` has. -/
def ofEntries (d : Display) : Entries → Except Mismatch Display
  | [] => .ok d
  | (key, v) :: rest =>
    if key = "width" then do ofEntries { d with width := ← v.natural } rest
    else if key = "colors" then do ofEntries { d with colors := ← v.bool } rest
    else ofEntries d rest

/-- Reads the fields from an array; those past its end keep what `d` has. -/
def ofItems (d : Display) : List Value → Except Mismatch Display
  | [] => .ok d
  | [width] => do return { d with width := ← width.natural }
  | width :: colors :: _ => do
    let width ← width.natural
    return ⟨width, ← colors.bool⟩

/-- Reads how progress is shown. -/
def ofValue (v : Value) : Except Mismatch Display :=
  match v.entries?, v.items? with
  | some entries, _ => Settings.defaultDisplay.ofEntries entries
  | none, some items => Settings.defaultDisplay.ofItems items
  | none, none => .error (v.mismatch "struct ReporterConfig")

end Display

namespace Settings

/-- Reads the fields in the order of their keys, over the ones that `s` has. -/
def ofEntries (s : Settings) : Entries → Except Mismatch Settings
  | [] => .ok s
  | (key, v) :: rest =>
    if key = "patchers" then do
      ofEntries { s with patchers := ← v.list NamedPatcher.ofValue } rest
    else if key = "reporter" then do ofEntries { s with display := ← Display.ofValue v } rest
    else ofEntries s rest

/-- Reads settings from a document, with or without issues. -/
def ofToml? (source : String) : Except Toml.Fault Settings :=
  match Toml.Document.ofString? source with
  | none => .error (.ofText source)
  | some entries =>
    match default.ofEntries entries with
    | .ok s => .ok s
    | .error what => .error (.mismatch what)

end Settings

end Pinpoint
