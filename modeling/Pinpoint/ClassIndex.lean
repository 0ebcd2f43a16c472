import Pinpoint.Named
import Pinpoint.Path

/-!
# Files of classes

A class index knows the file of each class by its full name. Backslashes before a name do not count:
`ClassIndex.find?` answers the file that was last inserted under the name without them.
-/

namespace Pinpoint

/-- Finds the file of a class. -/
abbrev Loader := String → Option Path

/-- The file of each class, the one inserted first in front. -/
structure ClassIndex where
  entries : List (String × Path)
deriving Repr, DecidableEq

namespace ClassIndex

def empty : ClassIndex := ⟨[]⟩

/-- The name of a class without the separators before it. -/
def bareName (name : String) : String :=
  String.ofList (name.toList.dropWhile (· == '\\'))

/-- The file of a class. -/
def find? (index : ClassIndex) (name : String) : Option Path :=
  Named.find? (bareName name) index.entries

/-- Makes `file` the file of a class, and gives the one that it was before. -/
def exchange (index : ClassIndex) (name : String) (file : Path) : Option Path × ClassIndex :=
  let (former, entries) := Named.exchange (bareName name) file index.entries
  (former, ⟨entries⟩)

/-- Makes `file` the file of a class. -/
def insert (index : ClassIndex) (name : String) (file : Path) : ClassIndex :=
  (index.exchange name file).2

/-- Inserts classes with their files one by one. -/
def ofList (classes : List (String × Path)) : ClassIndex :=
  classes.foldl (fun index (name, file) => index.insert name file) empty

/-- The number of classes. -/
def size (index : ClassIndex) : Nat := index.entries.length

def isEmpty (index : ClassIndex) : Bool := index.entries.isEmpty

/-- An inserted file is put under the name of its class without the backslashes before it. -/
theorem entries_insert (index : ClassIndex) (name : String) (file : Path) :
    (index.insert name file).entries = Named.put (bareName name) file index.entries := by
  rw [insert, exchange, Named.exchange_eq]

/-- An inserted file is found under every name of its class, and the others are found as before. -/
theorem find?_insert (index : ClassIndex) (name other : String) (file : Path) :
    (index.insert name file).find? other =
      if bareName name = bareName other then some file else index.find? other := by
  rw [find?, entries_insert]
  exact Named.find?_put (bareName name) (bareName other) file index.entries

end ClassIndex

end Pinpoint
