import Pinpoint.Json.Number

/-!
# Reading typed data from a JSON document

A document is read in one go from its start, so that the first problem in reading order is the one
reported. `size` bounds the loops: it is the length of the whole document, and every turn of a loop
takes a character at least. `depth` counts the lists and records that may still be opened.
-/

namespace Pinpoint.Json

/-- Takes a value off what is left of a document. -/
abbrev Reader (α : Type) := List Char → Except Fault (α × List Char)

/-- What stands where a reader wants something else. -/
def unexpected (expected : String) (s : List Char) : Fault :=
  let found (what : Found) : Fault := .mismatch (.kind what expected)
  let fixed (rest : List Char) (more : List Char) (what : Found) : Fault :=
    match word more rest with
    | .ok _ => found what
    | .error e => e
  let number (negative : Bool) (rest : List Char) : Fault :=
    match Number.read negative rest with
    | .ok (n, _) => found n.found
    | .error e => e
  match s with
  | [] => .ended
  | c :: rest =>
    if c = 'n' then fixed rest ['u', 'l', 'l'] .null
    else if c = 't' then fixed rest ['r', 'u', 'e'] (.boolean true)
    else if c = 'f' then fixed rest ['a', 'l', 's', 'e'] (.boolean false)
    else if c = '-' then number true rest
    else if c.isDigit then number false s
    else if c = '"' then
      match text [] rest with
      | .ok (value, _) => found (.text value)
      | .error e => e
    else if c = '[' then found .list
    else if c = '\x7b' then found .record
    else .malformed

/-- The lists and records that passing over a value has entered. -/
inductive Frame where
  | list
  | record
deriving Repr, DecidableEq

/-- Passes over a key and its colon. -/
def passKey (s : List Char) : Except Fault (List Char) :=
  match skipBlanks s with
  | [] => .error .ended
  | c :: rest =>
    if c = '"' then do
      match skipBlanks (← passText rest) with
      | [] => .error .ended
      | c :: rest => if c = ':' then .ok rest else .error .malformed
    else .error .malformed

mutual

/-- Passes over a value inside `frames`, and over all that is left of them. -/
def passValue : Nat → List Frame → List Char → Except Fault (List Char)
  | 0, _, _ => .error .malformed
  | size + 1, frames, s =>
    match skipBlanks s with
    | [] => .error .ended
    | c :: rest =>
      if c = 'n' then do passRest size frames (← word ['u', 'l', 'l'] rest)
      else if c = 't' then do passRest size frames (← word ['r', 'u', 'e'] rest)
      else if c = 'f' then do passRest size frames (← word ['a', 'l', 's', 'e'] rest)
      else if c = '-' then do passRest size frames (← Number.pass rest)
      else if c.isDigit then do passRest size frames (← Number.pass (c :: rest))
      else if c = '"' then do passRest size frames (← passText rest)
      else if c = '[' then
        match skipBlanks rest with
        | [] => .error .ended
        | d :: more =>
          if d = ']' then passRest size frames more
          else passValue size (.list :: frames) (d :: more)
      else if c = '\x7b' then
        match skipBlanks rest with
        | [] => .error .ended
        | d :: more =>
          if d = '\x7d' then passRest size frames more
          else do passValue size (.record :: frames) (← passKey (d :: more))
      else .error .malformed

/-- Passes over all that is left of `frames` behind a value. -/
def passRest : Nat → List Frame → List Char → Except Fault (List Char)
  | _, [], s => .ok s
  | 0, _ :: _, _ => .error .malformed
  | size + 1, .list :: frames, s =>
    match skipBlanks s with
    | [] => .error .ended
    | c :: rest =>
      if c = ']' then passRest size frames rest
      else if c = ',' then passValue size (.list :: frames) rest
      else .error .malformed
  | size + 1, .record :: frames, s =>
    match skipBlanks s with
    | [] => .error .ended
    | c :: rest =>
      if c = '\x7d' then passRest size frames rest
      else if c = ',' then do passValue size (.record :: frames) (← passKey rest)
      else .error .malformed

end

/-- Passes over one value, whatever it is and however deep it nests. -/
def pass (size : Nat) (s : List Char) : Except Fault (List Char) :=
  passValue size [] s

/-- Finds the next element of a list, or its end; `first` holds for a list just opened. -/
def nextElement (first : Bool) (s : List Char) : Except Fault (Option (List Char)) :=
  match skipBlanks s with
  | [] => .error .ended
  | c :: rest =>
    if c = ']' then .ok none
    else if first then .ok (some (c :: rest))
    else if c = ',' then
      match skipBlanks rest with
      | [] => .error .ended
      | d :: more => if d = ']' then .error .malformed else .ok (some (d :: more))
    else .error .malformed

/-- Reads the end of a list in which no element may follow. -/
def closeList (s : List Char) : Except Fault (List Char) :=
  match skipBlanks s with
  | [] => .error .ended
  | c :: rest => if c = ']' then .ok rest else .error .malformed

/-- Reads the elements of an opened list up to its end; `done` holds those read, last first. -/
def elements {α : Type} (item : Reader α) :
    Nat → Bool → List α → List Char → Except Fault (List α × List Char)
  | 0, _, _, _ => .error .malformed
  | size + 1, first, done, s => do
    match ← nextElement first s with
    | none => return (done.reverse, ← closeList s)
    | some s =>
      let (a, s) ← item s
      elements item size false (a :: done) s

/-- Reads a list. -/
def list {α : Type} (size depth : Nat) (item : Reader α) (s : List Char) :
    Except Fault (List α × List Char) :=
  match skipBlanks s with
  | c :: rest =>
    if c = '[' then if depth = 0 then .error .malformed else elements item size true [] rest
    else .error (unexpected "a sequence" (c :: rest))
  | [] => .error .ended

/-- Reads a text. -/
def string (s : List Char) : Except Fault (String × List Char) :=
  match skipBlanks s with
  | c :: rest => if c = '"' then text [] rest else .error (unexpected "a string" (c :: rest))
  | [] => .error .ended

/-- Reads a truth value. -/
def boolean (s : List Char) : Except Fault (Bool × List Char) :=
  match skipBlanks s with
  | c :: rest =>
    if c = 't' then do return (true, ← word ['r', 'u', 'e'] rest)
    else if c = 'f' then do return (false, ← word ['a', 'l', 's', 'e'] rest)
    else .error (unexpected "a boolean" (c :: rest))
  | [] => .error .ended

/-- Reads a null. -/
def null (expected : String) (s : List Char) : Except Fault (List Char) :=
  match skipBlanks s with
  | c :: rest =>
    if c = 'n' then word ['u', 'l', 'l'] rest else .error (unexpected expected (c :: rest))
  | [] => .error .ended

/-- Reads a null as the lack of what `item` reads. -/
def optional {α : Type} (item : Reader α) (s : List Char) :
    Except Fault (Option α × List Char) :=
  match skipBlanks s with
  | c :: rest =>
    if c = 'n' then do return (none, ← word ['u', 'l', 'l'] rest)
    else do
      let (a, s) ← item (c :: rest)
      return (some a, s)
  | [] => .error .ended

/-- Reads the colon behind a key. -/
def colon (s : List Char) : Except Fault (List Char) :=
  match skipBlanks s with
  | [] => .error .ended
  | c :: rest => if c = ':' then .ok rest else .error .malformed

/-- Looks a name up among the choices. -/
def choose {α : Type} (choices : List (String × α)) (name : String) : Except Fault α :=
  match choices.lookup name with
  | some a => .ok a
  | none => .error (.mismatch (.variant name (choices.map Prod.fst)))

/-- Reads a choice: its name, or a record with its name as the only key and a null behind it. -/
def choice {α : Type} (depth : Nat) (choices : List (String × α)) (s : List Char) :
    Except Fault (α × List Char) :=
  match skipBlanks s with
  | [] => .error .ended
  | c :: rest =>
    if c = '"' then do
      let (name, s) ← text [] rest
      return (← choose choices name, s)
    else if c = '\x7b' then
      if depth = 0 then .error .malformed
      else
        match skipBlanks rest with
        | [] => .error .ended
        | d :: more =>
          if d = '"' then do
            let (name, s) ← text [] more
            let a ← choose choices name
            let s ← null "unit" (← colon s)
            match skipBlanks s with
            | [] => .error .ended
            | e :: s => if e = '\x7d' then return (a, s) else .error .malformed
          else .error (unexpected "variant identifier" (d :: more))
    else .error .malformed

/-- Finds the next key of a record, or its end and what follows it. -/
def nextKey (first : Bool) (s : List Char) :
    Except Fault (Option String × List Char) :=
  match skipBlanks s with
  | [] => .error .ended
  | c :: rest =>
    if c = '\x7d' then .ok (none, rest)
    else if first then
      if c = '"' then do
        let (key, s) ← text [] rest
        return (some key, s)
      else .error .malformed
    else if c = ',' then
      match skipBlanks rest with
      | [] => .error .ended
      | d :: more =>
        if d = '"' then do
          let (key, s) ← text [] more
          return (some key, s)
        else .error .malformed
    else .error .malformed

/-- Reads the members of an opened record up to its end. `member` is given what was read so far, a
key and what follows the key. -/
def members {σ : Type} (member : σ → String → Reader σ) :
    Nat → Bool → σ → List Char → Except Fault (σ × List Char)
  | 0, _, _, _ => .error .malformed
  | size + 1, first, state, s => do
    match ← nextKey first s with
    | (none, s) => return (state, s)
    | (some key, s) =>
      let (state, s) ← member state key s
      members member size false state s

/-- Reads the value of a field that was not read before. -/
def field {α : Type} (name : String) (before : Option α) (item : Reader α)
    (s : List Char) : Except Fault (Option α × List Char) := do
  if before.isSome then .error (.mismatch (.repeated name))
  else
    let (a, s) ← item (← colon s)
    return (some a, s)

/-- Reads the next element of a list as a field, unless the list ends here. -/
def slot {α : Type} (first : Bool) (item : Reader α) (s : List Char) :
    Except Fault (Option α × List Char) := do
  match ← nextElement first s with
  | none => return (none, s)
  | some s =>
    let (a, s) ← item s
    return (some a, s)

/-- A field that must be there. -/
def require {α : Type} (name : String) : Option α → Except Fault α
  | some a => .ok a
  | none => .error (.mismatch (.missing name))

/-- A field that must be there in a record written as a list. -/
def requireSlot {α : Type} (index : Nat) (expected : String) : Option α → Except Fault α
  | some a => .ok a
  | none => .error (.mismatch (.length index expected))

/-- The lists and records that a document may nest. -/
def maxDepth : Nat := 127

/-- Reads a whole document, behind which only blanks may follow. -/
def document {α : Type} (read : Nat → Nat → Reader α) (source : String) :
    Except Fault α := do
  let s := source.toList
  let (a, rest) ← read (s.length + 2) maxDepth s
  if (skipBlanks rest).isEmpty then return a else .error .malformed

end Pinpoint.Json
