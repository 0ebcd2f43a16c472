import Pinpoint.Text.Line
import Pinpoint.Toml.Table
import Pinpoint.Toml.Text

/-!
# TOML documents

A document is a list of statements, one to a line: a key with its value, or the header of the table
that the next keys belong to. `Document.ofString?` reads the statements and builds the tables; it
gives nothing if the text is no document, and `Document.faultLine` then says from which line on.
`size` bounds the loops, by the length of the text.
-/

namespace Pinpoint.Toml

/-- How deep lists and tables in brackets and braces may nest, and how many dots a key may hold. -/
def maxDepth : Nat := 80

def isBareKey (c : Char) : Bool := c.isAlphanum || c == '_' || c == '-'

def skipBlanks (s : List Char) : List Char := s.dropWhile isBlank

/-- Passes over a comment, if there is one. -/
def skipComment : List Char → List Char
  | '#' :: s => s.dropWhile isPlain
  | s => s

/-- Passes over blanks, comments and line ends. -/
def skipLines : Nat → List Char → List Char
  | 0, s => s
  | size + 1, s =>
    let s := skipComment (skipBlanks s)
    match newline? s with
    | some s => skipLines size s
    | none => s

/-- Passes over what may stand behind a statement on its line. -/
def lineEnd? (s : List Char) : Option (List Char) :=
  match skipComment (skipBlanks s) with
  | [] => some []
  | s => newline? s

/-- Reads one part of a key. -/
def keyPart? (size : Nat) (s : List Char) : Option (String × List Char) :=
  match s with
  | [] => none
  | c :: rest =>
    if c = quotation then basic? size [] rest
    else if c = apostrophe then literal? [] rest
    else
      match s.span isBareKey with
      | ([], _) => none
      | (key, rest) => some (String.ofList key, rest)

/-- Reads a key: the parts before the last one, and the last one. -/
def key? (size : Nat) : Nat → List String → List Char → Option (List String × String × List Char)
  | 0, _, _ => none
  | dots + 1, path, s => do
    let (part, s) ← keyPart? size (skipBlanks s)
    match skipBlanks s with
    | '.' :: s => key? size dots (part :: path) s
    | s => return (path.reverse, part, s)

/-- Whether a character ends a bare word. -/
def endsWord (c : Char) : Bool :=
  isBlank c || c == '\n' || c == '\r' || c == ',' || c == ']' || c == '\x7d' || c == '#' ||
    c == '=' || c == '[' || c == '\x7b' || c == quotation || c == apostrophe

/-- What a bare word stands for. -/
def word? (word : List Char) : Option Value :=
  if word = ['t', 'r', 'u', 'e'] then some (.boolean true)
  else if word = ['f', 'a', 'l', 's', 'e'] then some (.boolean false)
  else if isMoment word then some .moment
  else
    match integer? word with
    | some n => some (.integer n)
    | none => (real? word).map .real

/-- Reads a value that holds no other. A date and a time may have a blank between them. -/
def leaf? (size : Nat) (s : List Char) : Option (Value × List Char) :=
  match text? size s with
  | some (value, s) => some (.text value, s)
  | none =>
    let (word, rest) := s.span fun c => !endsWord c
    match rest with
    | ' ' :: d :: more =>
      if passDate? word = some [] ∧ d.isDigit then
        let (time, rest) := (d :: more).span fun c => !endsWord c
        (word? (word ++ ' ' :: time)).map fun value => (value, rest)
      else (word? word).map fun value => (value, rest)
    | rest => (word? word).map fun value => (value, rest)

/-- Reads the elements of an opened list up to its end; `done` holds those read, last first. -/
def items? (value : List Char → Option (Value × List Char)) (size : Nat) :
    Nat → List Value → List Char → Option (List Value × List Char)
  | 0, _, _ => none
  | turns + 1, done, s =>
    match skipLines size s with
    | ']' :: s => some (done.reverse, s)
    | s => do
      let (item, s) ← value s
      match skipLines size s with
      | ',' :: s => items? value size turns (item :: done) s
      | ']' :: s => return ((item :: done).reverse, s)
      | _ => none

/-- Reads a key and its value. -/
def pair? (value : List Char → Option (Value × List Char)) (size : Nat) (s : List Char) :
    Option ((List String × String × Value) × List Char) := do
  let (path, key, s) ← key? size (maxDepth + 1) [] s
  let s ← expect? '=' s
  let (item, s) ← value (skipBlanks s)
  return ((path, key, item), s)

/-- Reads the keys of an opened table in braces up to its end, and adds them to `entries`. -/
def pairs? (value : List Char → Option (Value × List Char)) (size : Nat) :
    Nat → Entries → List Char → Option (Entries × List Char)
  | 0, _, _ => none
  | turns + 1, entries, s =>
    match skipLines size s with
    | '\x7d' :: s => some (entries, s)
    | s => do
      let ((path, key, item), s) ← pair? value size s
      let entries ← entries.define? path key item
      match skipLines size s with
      | ',' :: s => pairs? value size turns entries s
      | '\x7d' :: s => return (entries, s)
      | _ => none

/-- Reads a value in which lists and tables may nest so deep. -/
def value? (size : Nat) : Nat → List Char → Option (Value × List Char)
  | 0, s => leaf? size s
  | depth + 1, s =>
    match s with
    | '[' :: s =>
      (items? (value? size depth) size size [] s).map fun (items, s) => (.array items, s)
    | '\x7b' :: s =>
      (pairs? (value? size depth) size size [] s).map fun (entries, s) =>
        (.table .enclosed entries, s)
    | s => leaf? size s

/-- A line of a document. -/
inductive Statement where
  | define (path : List String) (key : String) (value : Value)
  | header (path : List String) (key : String)
  | nextHeader (path : List String) (key : String)

/-- Reads one statement. -/
def statement? (size : Nat) (s : List Char) : Option (Statement × List Char) :=
  match s with
  | '[' :: '[' :: s => do
    let (path, key, s) ← key? size (maxDepth + 1) [] s
    return (.nextHeader path key, ← expect? ']' (← expect? ']' s))
  | '[' :: s => do
    let (path, key, s) ← key? size (maxDepth + 1) [] s
    return (.header path key, ← expect? ']' s)
  | s => do
    let ((path, key, value), s) ← pair? (value? size maxDepth) size s
    return (.define path key value, s)

/-- Reads the statements of a document; `done` holds those read, last first. -/
def statements? (size : Nat) : Nat → List Statement → List Char → Option (List Statement)
  | 0, _, _ => none
  | turns + 1, done, s =>
    match skipLines size s with
    | [] => some done.reverse
    | s => do
      let (statement, s) ← statement? size s
      statements? size turns (statement :: done) (← lineEnd? s)

/-- Where the keys of the open table belong. -/
inductive Place where
  | top
  | headed (path : List String) (key : String)
  | repeated (path : List String) (key : String)

/-- A document in building: the closed tables, and the open one with its place. -/
structure Builder where
  closed : Entries
  place : Place
  opened : Entries

namespace Builder

/-- Puts the open table into its place. -/
def close? (b : Builder) : Option Entries :=
  match b.place with
  | .top => some b.opened
  | .headed path key => Entries.close? path key b.opened b.closed
  | .repeated path key => Entries.closeNext? path key b.opened b.closed

/-- Takes one statement in. -/
def add? (b : Builder) : Statement → Option Builder
  | .define path key value => do
    return { b with opened := ← b.opened.define? path key value }
  | .header path key => do
    let (made, closed) ← (← b.close?).open? path key
    return ⟨closed, .headed path key, made⟩
  | .nextHeader path key => do
    let (_, closed) ← (← b.close?).openNext? path key
    return ⟨closed, .repeated path key, []⟩

end Builder

namespace Document

/-- Builds the tables of a document. -/
def build? (statements : List Statement) : Option Entries :=
  (statements.foldlM Builder.add? ⟨[], .top, []⟩).bind Builder.close?

/-- Reads a document. A byte order mark before it is passed over. -/
def ofString? (source : String) : Option Entries :=
  let s :=
    match source.toList with
    | '\uFEFF' :: s => s
    | s => s
  (statements? (s.length + 1) (s.length + 1) [] s).bind build?

/-- Whether some lines make a document. -/
def isMadeOf (lines : List String) : Bool := (ofString? ("\n".intercalate lines)).isSome

/-- The most of the first lines, and of `count` lines, that make a document by themselves. -/
def intact (lines : List String) : Nat → Nat
  | 0 => 0
  | count + 1 => if isMadeOf (lines.take (count + 1)) then count + 1 else intact lines count

/-- The number of the line from which on a text is no document. -/
def faultLine (source : String) : Nat :=
  let lines := Line.split source
  intact lines lines.length + 1

/-- The lines that are intact make a document. -/
theorem isMadeOf_intact (lines : List String) (count : Nat) :
    isMadeOf (lines.take (intact lines count)) = true := by
  induction count with
  | zero =>
      rw [intact, List.take_zero]
      decide +kernel
  | succ count ih =>
      rw [intact]
      split
      · assumption
      · exact ih

/-- No more lines than the intact ones make a document. -/
theorem isMadeOf_of_intact_lt {lines : List String} {count k : Nat} (hk : k ≤ count)
    (h : intact lines count < k) : isMadeOf (lines.take k) = false := by
  induction count with
  | zero => omega
  | succ count ih =>
      rw [intact] at h
      split at h
      · omega
      · next hmade =>
          rcases Nat.lt_or_eq_of_le hk with hk | rfl
          · exact ih (Nat.le_of_lt_succ hk) h
          · exact Bool.eq_false_iff.2 hmade

example : faultLine "a = 1\nb =\nc = 2\n" = 2 := by decide +kernel

end Document

end Pinpoint.Toml
