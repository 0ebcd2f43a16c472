/-!
# Writing JSON documents

`Json.Document` holds what a document may say, and is written without blanks or with an element to
a line. `writeText` escapes the two characters that would end a text, and the controls.
-/

namespace Pinpoint.Json

/-- What a document says. -/
inductive Document where
  | null
  | boolean (value : Bool)
  | text (value : String)
  | list (elements : List Document)
  | record (members : List (String × Document))

/-- A digit in base sixteen, in lower case. -/
def hexDigit (n : Nat) : Char :=
  if n < 10 then Char.ofNat (n + '0'.toNat) else Char.ofNat (n - 10 + 'a'.toNat)

/-- Writes one character of a text. -/
def writeChar (c : Char) : List Char :=
  if c = '"' then ['\\', '"']
  else if c = '\\' then ['\\', '\\']
  else if c = '\x08' then ['\\', 'b']
  else if c = '\x0c' then ['\\', 'f']
  else if c = '\n' then ['\\', 'n']
  else if c = '\r' then ['\\', 'r']
  else if c = '\t' then ['\\', 't']
  else if c.toNat < 0x20 then
    ['\\', 'u', '0', '0', hexDigit (c.toNat / 16), hexDigit (c.toNat % 16)]
  else [c]

/-- Writes a text between quotation marks. -/
def writeText (value : String) : String :=
  String.ofList ('"' :: (value.toList.flatMap writeChar ++ ['"']))

namespace Document

mutual

/-- Writes a document without blanks behind `done`. -/
def compactOnto (done : String) : Document → String
  | null => done ++ "null"
  | boolean value => done ++ if value then "true" else "false"
  | text value => done ++ writeText value
  | list elements => compactList (done ++ "[") true elements ++ "]"
  | record members => compactRecord (done ++ "\x7b") true members ++ "\x7d"

/-- Writes elements with commas between them. -/
def compactList (done : String) (first : Bool) : List Document → String
  | [] => done
  | d :: rest =>
    compactList (compactOnto (if first then done else done ++ ",") d) false rest

/-- Writes members with commas between them. -/
def compactRecord (done : String) (first : Bool) : List (String × Document) → String
  | [] => done
  | (key, d) :: rest =>
    compactRecord
      (compactOnto ((if first then done else done ++ ",") ++ writeText key ++ ":") d) false rest

end

/-- Writes a document without blanks. -/
def compact (d : Document) : String := compactOnto "" d

/-- Begins a line at `level`. -/
def newline (done : String) (level : Nat) : String :=
  done ++ String.ofList ('\n' :: List.replicate (2 * level) ' ')

mutual

/-- Writes a document behind `done`, with each element and member on a line of its own, two blanks
deeper than what holds it. -/
def prettyOnto (done : String) (level : Nat) : Document → String
  | null => done ++ "null"
  | boolean value => done ++ if value then "true" else "false"
  | text value => done ++ writeText value
  | list elements =>
    if elements.isEmpty then done ++ "[]"
    else newline (prettyList (done ++ "[") (level + 1) true elements) level ++ "]"
  | record members =>
    if members.isEmpty then done ++ "\x7b\x7d"
    else newline (prettyRecord (done ++ "\x7b") (level + 1) true members) level ++ "\x7d"

/-- Writes elements, each on its line. -/
def prettyList (done : String) (level : Nat) (first : Bool) : List Document → String
  | [] => done
  | d :: rest =>
    prettyList (prettyOnto (newline (if first then done else done ++ ",") level) level d) level
      false rest

/-- Writes members, each on its line. -/
def prettyRecord (done : String) (level : Nat) (first : Bool) : List (String × Document) → String
  | [] => done
  | (key, d) :: rest =>
    let line := newline (if first then done else done ++ ",") level
    prettyRecord (prettyOnto (line ++ writeText key ++ ": ") level d) level false rest

end

/-- Writes a document with each element and member on a line of its own. -/
def pretty (d : Document) : String := prettyOnto "" 0 d

end Document

end Pinpoint.Json
