import Pinpoint.Json.Reader
import Pinpoint.Outcome

/-!
# Reports of outcomes

A report says what became of a spec, which spec it was, and perhaps more. Reports are read from a
document that lists them, each a record of its fields or a list of them in their order.
-/

namespace Pinpoint

open Json (Fault Reader)

/-- The outcome of a spec, with its description. -/
structure Report where
  outcome : Outcome
  description : String
  message : Option String
deriving Repr, DecidableEq

namespace Report

/-- The fields of a report that were read so far. -/
structure Fields where
  outcome : Option Outcome
  description : Option String
  message : Option (Option String)

namespace Fields

def none : Fields := ⟨.none, .none, .none⟩

/-- Reads one member of a record of fields. -/
def member (size depth : Nat) (f : Fields) (key : String) (s : List Char) :
    Except Fault (Fields × List Char) := do
  if key = "outcome" then
    let (outcome, s) ← Json.field "outcome" f.outcome (Json.choice depth Outcome.named) s
    return ({ f with outcome }, s)
  else if key = "description" then
    let (description, s) ← Json.field "description" f.description Json.string s
    return ({ f with description }, s)
  else if key = "message" then
    let (message, s) ← Json.field "message" f.message (Json.optional Json.string) s
    return ({ f with message }, s)
  else
    return (f, ← Json.pass size (← Json.colon s))

/-- Reads an opened record of fields. -/
def ofRecord (size depth : Nat) (s : List Char) : Except Fault (Report × List Char) := do
  let (f, s) ← Json.members (member size depth) size true none s
  let outcome ← Json.require "outcome" f.outcome
  let description ← Json.require "description" f.description
  return (⟨outcome, description, f.message.join⟩, s)

/-- What a report is when it is written as a list. -/
def listed : String := "struct Report with 3 elements"

/-- Reads an opened list of fields. -/
def ofList (depth : Nat) (s : List Char) : Except Fault (Report × List Char) := do
  let (outcome, s) ← Json.slot true (Json.choice depth Outcome.named) s
  let outcome ← Json.requireSlot 0 listed outcome
  let (description, s) ← Json.slot false Json.string s
  let description ← Json.requireSlot 1 listed description
  let (message, s) ← Json.slot false (Json.optional Json.string) s
  return (⟨outcome, description, message.join⟩, ← Json.closeList s)

end Fields

/-- Reads a report, inside which `depth` lists and records may be opened. -/
def read (size depth : Nat) (s : List Char) : Except Fault (Report × List Char) :=
  match Json.skipBlanks s with
  | [] => .error .ended
  | c :: rest =>
    if c = '[' then Fields.ofList depth rest
    else if c = '\x7b' then Fields.ofRecord size depth rest
    else .error (Json.unexpected "struct Report" (c :: rest))

/-- Reads the reports of a document. -/
def listOfJson? (source : String) : Except Fault (List Report) :=
  Json.document (fun size depth => Json.list size depth (read size (depth - 2))) source

end Report

end Pinpoint
