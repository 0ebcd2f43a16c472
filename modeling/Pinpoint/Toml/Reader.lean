import Pinpoint.Decimal.Notation
import Pinpoint.Mismatch
import Pinpoint.Toml.Document

/-!
# Reading typed data from a TOML document

A record is a table with the record's fields as keys, or an array of its fields in their order. A
moment counts as a table with a key that no record has.
-/

namespace Pinpoint.Toml

/-- The form in which doubles are shown: always positional. -/
def layout : Decimal.Layout := ⟨none, none⟩

/-- Why a document cannot be read. -/
inductive Fault where
  /-- The text is no document, in the words given. -/
  | malformed (text : String)
  | mismatch (what : Mismatch)
deriving Repr, DecidableEq

namespace Fault

/-- Says of a text that is no document where it stops to be one. -/
def ofText (source : String) : Fault :=
  .malformed ("the document is malformed from line " ++ toString (Document.faultLine source) ++
    " on")

/-- Words what is wrong with a document. -/
def reason : Fault → String
  | malformed text => text
  | mismatch what => what.message

end Fault

namespace Value

/-- The value as a reader that wants something else names it. -/
def found : Value → Found
  | text value => .text value
  | integer value => .integer value
  | real value => .real (layout.float value)
  | boolean value => .boolean value
  | moment => .record
  | array _ => .list
  | table _ _ => .record
  | tables _ => .list

def mismatch (expected : String) (v : Value) : Mismatch := .kind v.found expected

/-- Reads a text. -/
def string : Value → Except Mismatch String
  | text value => .ok value
  | v => .error (v.mismatch "a string")

/-- Reads a truth value. -/
def bool : Value → Except Mismatch Bool
  | boolean value => .ok value
  | v => .error (v.mismatch "a boolean")

/-- Reads a natural number. -/
def natural : Value → Except Mismatch Nat
  | integer value =>
    if value < 0 then .error (.value (.integer value) "usize") else .ok value.toNat
  | v => .error (v.mismatch "usize")

/-- The items of a list, whichever way it is written. -/
def items? : Value → Option (List Value)
  | array items => some items
  | tables items => some (items.map (.table .headed))
  | _ => none

/-- The keys of a table with their values. A moment has one, and no reader wants it. -/
def entries? : Value → Option Entries
  | table _ entries => some entries
  | moment => some []
  | _ => none

/-- Reads a list. -/
def list {α : Type} (item : Value → Except Mismatch α) (v : Value) : Except Mismatch (List α) :=
  match v.items? with
  | some items => items.mapM item
  | none => .error (v.mismatch "a sequence")

/-- Checks that nothing stands behind the name of a choice. -/
def checkEmpty : Value → Except Mismatch Unit
  | tables items => if items.isEmpty then .ok () else .error .filledList
  | array items => if items.isEmpty then .ok () else .error .filledTable
  | table _ entries => if entries.isEmpty then .ok () else .error .filledTable
  | text _ => .error (.noTable "string")
  | integer _ => .error (.noTable "integer")
  | real _ => .error (.noTable "float")
  | boolean _ => .error (.noTable "boolean")
  | moment => .error (.noTable "datetime")

/-- Looks a name up among the choices. -/
def choose {α : Type} (choices : List (String × α)) (name : String) : Except Mismatch α :=
  match choices.lookup name with
  | some a => .ok a
  | none => .error (.variant name (choices.map Prod.fst))

/-- Reads a choice: its name, or a table with its name as the only key and an empty table there. -/
def choice {α : Type} (choices : List (String × α)) : Value → Except Mismatch α
  | text name => choose choices name
  | table _ [] => .error .noEntry
  | table _ [(name, v)] => do
    let a ← choose choices name
    v.checkEmpty
    return a
  | table _ _ => .error .manyEntries
  | _ => .error .choice

end Value

end Pinpoint.Toml
