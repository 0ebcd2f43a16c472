import Pinpoint.Toml.Number

/-!
# Texts of a TOML document

A text stands between quotation marks or apostrophes, one on either side or three. Only between
quotation marks does a backslash escape what follows it.
-/

namespace Pinpoint.Toml

def quotation : Char := '"'

def apostrophe : Char := Char.ofNat 0x27

/-- The blanks inside a line. -/
def isBlank (c : Char) : Bool := c == ' ' || c == '\t'

/-- Whether a character may stand for itself in a comment or a text of one line. -/
def isPlain (c : Char) : Bool := c == '\t' || (0x20 ≤ c.toNat && c.toNat ≠ 0x7F)

/-- Passes over one line end. -/
def newline? : List Char → Option (List Char)
  | '\n' :: s => some s
  | '\r' :: '\n' :: s => some s
  | _ => none

/-- Reads a code point of so many digits in base sixteen; surrogates and numbers past the last
character are none. -/
def codePoint? (count : Nat) (s : List Char) : Option (Char × List Char) :=
  let digits := s.take count
  if digits.length = count ∧ digits.all isHexDigit then
    let n := valueOf 16 digits
    if n < 0xD800 ∨ (0xDFFF < n ∧ n < 0x110000) then some (Char.ofNat n, s.drop count) else none
  else none

/-- Reads what stands behind a backslash. -/
def escape? : List Char → Option (Char × List Char)
  | [] => none
  | c :: s =>
    if c = 'b' then some ('\x08', s)
    else if c = 't' then some ('\t', s)
    else if c = 'n' then some ('\n', s)
    else if c = 'f' then some ('\x0c', s)
    else if c = 'r' then some ('\r', s)
    else if c = 'e' then some ('\x1b', s)
    else if c = '"' then some ('"', s)
    else if c = '\\' then some ('\\', s)
    else if c = 'x' then codePoint? 2 s
    else if c = 'u' then codePoint? 4 s
    else if c = 'U' then codePoint? 8 s
    else none

/-- Reads a text of one line up to its quotation mark; `done` holds what was read, last first. -/
def basic? : Nat → List Char → List Char → Option (String × List Char)
  | 0, _, _ => none
  | _, _, [] => none
  | size + 1, done, c :: s =>
    if c = quotation then some (String.ofList done.reverse, s)
    else if c = '\\' then do
      let (c, s) ← escape? s
      basic? size (c :: done) s
    else if isPlain c then basic? size (c :: done) s
    else none

/-- Reads a text of one line up to its apostrophe. -/
def literal? (done : List Char) : List Char → Option (String × List Char)
  | [] => none
  | c :: s =>
    if c = apostrophe then some (String.ofList done.reverse, s)
    else if isPlain c then literal? (c :: done) s
    else none

/-- Passes over the line end right behind three opening marks. -/
def firstLine (s : List Char) : List Char := (newline? s).getD s

/-- Passes over the blanks and line ends behind a backslash that ends a line. -/
def passLines? (s : List Char) : Option (List Char) :=
  (newline? (s.dropWhile isBlank)).map fun s =>
    s.dropWhile fun c => isBlank c || c == '\n' || c == '\r'

/-- Ends a text of many lines at three marks; of up to two marks more the first belong to it. -/
def closing? (mark : Char) (s : List Char) : Option (Nat × List Char) :=
  let count := min (s.takeWhile (· == mark)).length 5
  if 3 ≤ count then some (count - 3, s.drop count) else none

/-- Reads a text of many lines up to its three marks. -/
def lines? (mark : Char) : Nat → List Char → List Char → Option (String × List Char)
  | 0, _, _ => none
  | _, _, [] => none
  | size + 1, done, c :: s =>
    if c = mark then
      match closing? mark (c :: s) with
      | some (extra, s) => some (String.ofList (List.replicate extra mark ++ done).reverse, s)
      | none => lines? mark size (c :: done) s
    else if c = '\\' ∧ mark = quotation then
      match passLines? s with
      | some s => lines? mark size done s
      | none => do
        let (c, s) ← escape? s
        lines? mark size (c :: done) s
    else if c = '\n' then lines? mark size (c :: done) s
    else if c = '\r' then
      match s with
      | '\n' :: s => lines? mark size ('\n' :: '\r' :: done) s
      | _ => none
    else if isPlain c then lines? mark size (c :: done) s
    else none

/-- Reads a text of either kind, on one line or on many. -/
def text? (size : Nat) : List Char → Option (String × List Char)
  | c :: s =>
    if c = quotation then
      if [c, c].isPrefixOf s then lines? c size [] (firstLine (s.drop 2)) else basic? size [] s
    else if c = apostrophe then
      if [c, c].isPrefixOf s then lines? c size [] (firstLine (s.drop 2)) else literal? [] s
    else none
  | [] => none

end Pinpoint.Toml
