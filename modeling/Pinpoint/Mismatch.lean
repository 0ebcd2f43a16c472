import Pinpoint.Text.Escaped

/-!
# Well-formed data of the wrong shape

A document may be well formed and still not say what its reader wants. `Mismatch` lists the ways,
and `Mismatch.message` words them.
-/

namespace Pinpoint

/-- What a document holds where its reader wants something else. -/
inductive Found where
  | null
  | boolean (value : Bool)
  | integer (value : Int)
  /-- A number with a fraction or of a size that no integer has, as its document kind writes it. -/
  | real (written : String)
  | text (value : String)
  | list
  | record
deriving Repr, DecidableEq

/-- The ways in which data is not what its reader wants. -/
inductive Mismatch where
  | kind (found : Found) (expected : String)
  | value (found : Found) (expected : String)
  | length (count : Nat) (expected : String)
  | variant (name : String) (options : List String)
  | missing (field : String)
  | repeated (field : String)
  /-- A choice that is neither written as its name nor as a table. -/
  | choice
  /-- A choice written as a table that holds no entry. -/
  | noEntry
  /-- A choice written as a table that holds more than one entry. -/
  | manyEntries
  /-- A choice with a list of tables behind its name that is not empty. -/
  | filledList
  /-- A choice with a table or a list behind its name that is not empty. -/
  | filledTable
  /-- A choice with something else than a table behind its name. -/
  | noTable (found : String)
deriving Repr, DecidableEq

namespace Found

/-- Names the thing found. -/
def message : Found → String
  | null => "null"
  | boolean value => "boolean `" ++ toString value ++ "`"
  | integer value => "integer `" ++ toString value ++ "`"
  | real written => "floating point `" ++ written ++ "`"
  | text value => "string " ++ Escaped.text value
  | list => "sequence"
  | record => "map"

end Found

namespace Mismatch

def ticked (name : String) : String := "`" ++ name ++ "`"

/-- Names the choices. -/
def optionsMessage : List String → String
  | [] => "there are no variants"
  | [a] => "expected " ++ ticked a
  | [a, b] => "expected " ++ ticked a ++ " or " ++ ticked b
  | options => "expected one of " ++ ", ".intercalate (options.map ticked)

/-- Words the mismatch. -/
def message : Mismatch → String
  | kind found expected => "invalid type: " ++ found.message ++ ", expected " ++ expected
  | value found expected => "invalid value: " ++ found.message ++ ", expected " ++ expected
  | length count expected => "invalid length " ++ toString count ++ ", expected " ++ expected
  | variant name options => "unknown variant " ++ ticked name ++ ", " ++ optionsMessage options
  | missing field => "missing field " ++ ticked field
  | repeated field => "duplicate field " ++ ticked field
  | choice => "wanted string or table"
  | noEntry => "wanted exactly 1 element, found 0 elements"
  | manyEntries => "wanted exactly 1 element, more than 1 element"
  | filledList => "expected empty array"
  | filledTable => "expected empty table"
  | noTable found => "expected table, found " ++ found

end Mismatch

end Pinpoint
