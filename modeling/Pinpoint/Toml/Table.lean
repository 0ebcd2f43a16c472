import Pinpoint.Named

/-!
# Tables of a TOML document

A table keeps its keys in the order in which they came in, and knows how it came to be: a key may
add to some tables and not to others. `Entries.define?` adds a dotted key, `Entries.open?` and
`Entries.close?` take a headed table out and put it back.
-/

namespace Pinpoint.Toml

/-- How a table came to be. -/
inductive Origin where
  /-- It stands under a header of its own. -/
  | headed
  /-- A header named a table inside it. -/
  | implied
  /-- A dotted key named a key inside it. -/
  | dotted
  /-- It stands between braces, and is complete. -/
  | enclosed
deriving Repr, DecidableEq

inductive Value where
  | text (value : String)
  | integer (value : Int)
  | real (value : Float)
  | boolean (value : Bool)
  /-- A date, a time, or both. -/
  | moment
  /-- A list between brackets. -/
  | array (items : List Value)
  | table (origin : Origin) (entries : List (String × Value))
  /-- The tables that stand under one repeated header. -/
  | tables (items : List (List (String × Value)))

/-- The keys of a table with their values. -/
abbrev Entries := List (String × Value)

namespace Entries

/-- Changes the table at a path, and makes the tables on the way that are missing. A dotted key
(`dotted`) leads only through tables that stand under no header. -/
def within? {β : Type} (dotted : Bool) (change : Origin → Entries → Option (β × Entries)) :
    List String → Origin → Entries → Option (β × Entries)
  | [], here, entries => change here entries
  | key :: path, _, entries =>
    match Named.find? key entries with
    | none => do
      let origin : Origin := if dotted then .dotted else .implied
      let (b, inner) ← within? dotted change path origin []
      return (b, entries ++ [(key, .table origin inner)])
    | some (.table origin inner) =>
      if origin = .enclosed ∨ (dotted ∧ origin = .headed) then none
      else do
        let (b, inner) ← within? dotted change path origin inner
        return (b, Named.put key (.table origin inner) entries)
    | some (.tables items) =>
      match items.getLast? with
      | none => none
      | some inner => do
        let (b, inner) ← within? dotted change path .headed inner
        return (b, Named.put key (.tables (items.dropLast ++ [inner])) entries)
    | some _ => none

/-- Adds a dotted key. Behind a dot it may only be added to a table that dotted keys made, and no
key may come twice. -/
def define? (path : List String) (key : String) (value : Value) (entries : Entries) :
    Option Entries :=
  (within? true
    (fun here inner =>
      if (here == .dotted) == path.isEmpty then none
      else if (Named.find? key inner).isSome then none
      else some ((), inner ++ [(key, value)]))
    path .headed entries).map Prod.snd

/-- Takes out the table that a header is for, as far as headers of tables inside it made it. No
table may come under two headers. -/
def open? (path : List String) (key : String) (entries : Entries) : Option (Entries × Entries) :=
  within? false
    (fun _ inner =>
      match Named.find? key inner with
      | none => some ([], inner)
      | some (.table .implied made) => some (made, Named.drop key inner)
      | some _ => none)
    path .headed entries

/-- Puts a table back under its header. -/
def close? (path : List String) (key : String) (made : Entries) (entries : Entries) :
    Option Entries :=
  (within? false (fun _ inner => some ((), inner ++ [(key, .table .headed made)])) path .headed
    entries).map Prod.snd

/-- The tables under a repeated header so far. -/
def openNext? (path : List String) (key : String) (entries : Entries) :
    Option (Unit × Entries) :=
  within? false
    (fun _ inner =>
      match Named.find? key inner with
      | none => some ((), inner)
      | some (.tables _) => some ((), inner)
      | some _ => none)
    path .headed entries

/-- Adds a table under a repeated header. -/
def closeNext? (path : List String) (key : String) (made : Entries) (entries : Entries) :
    Option Entries :=
  (within? false
    (fun _ inner =>
      match Named.find? key inner with
      | some (.tables items) => some ((), Named.put key (.tables (items ++ [made])) inner)
      | _ => some ((), inner ++ [(key, .tables [made])]))
    path .headed entries).map Prod.snd

end Entries

end Pinpoint.Toml
