import Pinpoint.Json.Printer
import Pinpoint.Json.Reader
import Pinpoint.Span.Basic

/-!
# Trees of spans as JSON documents

A span is written as a record of its four fields. It is read from such a record, in which every
field but the kind may be missing and other fields are passed over, or from a list of the fields in
their order, whose end may be missing.
-/

namespace Pinpoint.Span

open Json (Fault Reader)

mutual

/-- The document of a tree. -/
def toDocument : Span → Json.Document
  | ⟨kind, body, processable, children⟩ =>
    .record [("kind", .text kind.name), ("body", .text body), ("processable", .boolean processable),
      ("children", .list (toDocuments children))]

def toDocuments : List Span → List Json.Document
  | [] => []
  | s :: rest => toDocument s :: toDocuments rest

end

/-- The fields of a span that were read so far. -/
structure Fields where
  kind : Option SpanKind
  body : Option String
  processable : Option Bool
  children : Option (List Span)

namespace Fields

def none : Fields := ⟨.none, .none, .none, .none⟩

/-- The span of the fields; a missing field behind the kind takes its default. -/
def toSpan (f : Fields) (kind : SpanKind) : Span :=
  ⟨kind, f.body.getD "", f.processable.getD true, f.children.getD []⟩

/-- Reads one member of a record of fields. -/
def member (size depth : Nat) (child : Reader Span) (f : Fields) (key : String) (s : List Char) :
    Except Fault (Fields × List Char) := do
  if key = "kind" then
    let (kind, s) ← Json.field "kind" f.kind (Json.choice depth SpanKind.named) s
    return ({ f with kind }, s)
  else if key = "body" then
    let (body, s) ← Json.field "body" f.body Json.string s
    return ({ f with body }, s)
  else if key = "processable" then
    let (processable, s) ← Json.field "processable" f.processable Json.boolean s
    return ({ f with processable }, s)
  else if key = "children" then
    let (children, s) ← Json.field "children" f.children (Json.list size depth child) s
    return ({ f with children }, s)
  else
    return (f, ← Json.pass size (← Json.colon s))

/-- Reads an opened record of fields. -/
def ofRecord (size depth : Nat) (child : Reader Span) (s : List Char) :
    Except Fault (Span × List Char) := do
  let (f, s) ← Json.members (member size depth child) size true none s
  let kind ← Json.require "kind" f.kind
  return (f.toSpan kind, s)

/-- Reads an opened list of fields. -/
def ofList (size depth : Nat) (child : Reader Span) (s : List Char) :
    Except Fault (Span × List Char) := do
  let (kind, s) ← Json.slot true (Json.choice depth SpanKind.named) s
  let kind ← Json.requireSlot 0 "struct Node with 4 elements" kind
  let (body, s) ← Json.slot false Json.string s
  let (processable, s) ← Json.slot false Json.boolean s
  let (children, s) ← Json.slot false (Json.list size depth child) s
  return (toSpan ⟨kind, body, processable, children⟩ kind, ← Json.closeList s)

end Fields

/-- Reads a span, inside which `depth` lists and records may be opened. -/
def readWithin (size depth : Nat) (child : Reader Span) (s : List Char) :
    Except Fault (Span × List Char) :=
  match Json.skipBlanks s with
  | [] => .error .ended
  | c :: rest =>
    if c = '[' then Fields.ofList size depth child rest
    else if c = '\x7b' then Fields.ofRecord size depth child rest
    else .error (Json.unexpected "struct Node" (c :: rest))

/-- Refuses a span where no list or record may be opened. -/
def refuse (s : List Char) : Except Fault (Span × List Char) :=
  match Json.skipBlanks s with
  | [] => .error .ended
  | c :: rest =>
    if c = '[' ∨ c = '\x7b' then .error .malformed
    else .error (Json.unexpected "struct Node" (c :: rest))

/-- Reads a span where `depth` lists and records may be opened: one is the span's own, and its
children take another. -/
def read (size : Nat) : Nat → Reader Span
  | 0 => refuse
  | 1 => readWithin size 0 refuse
  | depth + 2 => readWithin size (depth + 1) (read size depth)

/-- Writes a tree without blanks. -/
def toJson (s : Span) : String := s.toDocument.compact

/-- Writes a tree with a field to a line. -/
def toPrettyJson (s : Span) : String := s.toDocument.pretty

/-- Reads a tree from a document. -/
def ofJson? (source : String) : Except Fault Span := Json.document read source

end Pinpoint.Span
