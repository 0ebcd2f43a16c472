/-!
# Numbers and moments of a TOML document

A bare word is a number or a moment if all of it has the form of one. Underscores may stand between
digits only, and a decimal number begins with a zero only if that is all of it.
-/

namespace Pinpoint.Toml

/-- The digits of a word in which single underscores may stand between digits. -/
def grouped? (isDigit : Char → Bool) : List Char → Option (List Char)
  | [] => none
  | [c] => if isDigit c then some [c] else none
  | c :: '_' :: rest => if isDigit c then (grouped? isDigit rest).map (c :: ·) else none
  | c :: rest => if isDigit c then (grouped? isDigit rest).map (c :: ·) else none

def digitValue (c : Char) : Nat :=
  if c.isDigit then c.toNat - '0'.toNat
  else if 'a' ≤ c then c.toNat - 'a'.toNat + 10
  else c.toNat - 'A'.toNat + 10

/-- The value of digits in a base. -/
def valueOf (base : Nat) (digits : List Char) : Nat :=
  digits.foldl (fun n c => n * base + digitValue c) 0

def isHexDigit (c : Char) : Bool :=
  c.isDigit || ('a' ≤ c && c ≤ 'f') || ('A' ≤ c && c ≤ 'F')

def isOctalDigit (c : Char) : Bool := '0' ≤ c && c ≤ '7'

def isBinaryDigit (c : Char) : Bool := c == '0' || c == '1'

/-- The digits of a decimal number without needless zeros before it. -/
def decimal? (s : List Char) : Option (List Char) :=
  match grouped? Char.isDigit s with
  | some ('0' :: _ :: _) => none
  | digits => digits

/-- Splits a sign off a word. -/
def signed : List Char → Bool × List Char
  | '-' :: s => (true, s)
  | '+' :: s => (false, s)
  | s => (false, s)

/-- A number with its sign, if it fits 64 bits. -/
def fit? (negative : Bool) (n : Nat) : Option Int :=
  if negative then if n ≤ Nat.pow 2 63 then some (-(n : Int)) else none
  else if n < Nat.pow 2 63 then some n else none

/-- The integer that a word stands for. A number in another base has no sign. -/
def integer? (s : List Char) : Option Int :=
  match s with
  | '0' :: 'x' :: s => (grouped? isHexDigit s).bind fun ds => fit? false (valueOf 16 ds)
  | '0' :: 'o' :: s => (grouped? isOctalDigit s).bind fun ds => fit? false (valueOf 8 ds)
  | '0' :: 'b' :: s => (grouped? isBinaryDigit s).bind fun ds => fit? false (valueOf 2 ds)
  | s =>
    let (negative, s) := signed s
    (decimal? s).bind fun ds => fit? negative (valueOf 10 ds)

/-- The double nearest to `digits · 10 ^ power`, if it is not too great for a double. -/
def nearest? (digits : Nat) (power : Int) : Option Float :=
  let size : Int := (Nat.toDigits 10 digits).length
  if digits = 0 ∨ power + size < -400 then some 0
  else if 400 < power + size then none
  else
    let x := Float.ofScientific digits (power < 0) power.natAbs
    if x.isInf then none else some x

/-- The digits behind the point of a word, if it has one. -/
def part? : List Char → Option (List Char × List Char)
  | '.' :: s =>
    let (part, rest) := s.span fun c => c != 'e' && c != 'E'
    (grouped? Char.isDigit part).map fun ds => (ds, rest)
  | s => some ([], s)

/-- The exponent of a word, if it has one. -/
def exponent? : List Char → Option Int
  | [] => some 0
  | c :: s =>
    if c = 'e' ∨ c = 'E' then
      let (negative, s) := signed s
      (grouped? Char.isDigit s).map fun ds =>
        let n : Int := valueOf 10 ds
        if negative then -n else n
    else none

/-- The double that a word without a sign stands for. It has a point or an exponent. -/
def unsignedReal? (s : List Char) : Option Float :=
  if s = ['i', 'n', 'f'] then some (1 / 0)
  else if s = ['n', 'a', 'n'] then some (0 / 0)
  else do
    let (whole, rest) := s.span fun c => c != '.' && c != 'e' && c != 'E'
    let whole ← if rest.isEmpty then none else decimal? whole
    let (part, rest) ← part? rest
    let exponent ← exponent? rest
    nearest? (valueOf 10 (whole ++ part)) (exponent - (part.length : Int))

/-- The double that a word stands for. -/
def real? (s : List Char) : Option Float :=
  let (negative, s) := signed s
  (unsignedReal? s).map fun x => if negative then -x else x

/-! Moments are only checked: what a moment is does not matter to any reader. -/

/-- Reads a number of so many digits that lies between two bounds. -/
def bounded? (count low high : Nat) (s : List Char) : Option (Nat × List Char) :=
  let digits := s.take count
  let n := valueOf 10 digits
  if digits.length = count ∧ digits.all Char.isDigit ∧ low ≤ n ∧ n ≤ high then
    some (n, s.drop count)
  else none

/-- Passes over a character that must be there. -/
def expect? (c : Char) : List Char → Option (List Char)
  | d :: s => if d = c then some s else none
  | [] => none

def daysIn (year month : Nat) : Nat :=
  if month = 2 then
    if year % 4 = 0 ∧ (year % 100 ≠ 0 ∨ year % 400 = 0) then 29 else 28
  else if month = 4 ∨ month = 6 ∨ month = 9 ∨ month = 11 then 30
  else 31

/-- Passes over a date. -/
def passDate? (s : List Char) : Option (List Char) := do
  let (year, s) ← bounded? 4 0 9999 s
  let (month, s) ← bounded? 2 1 12 (← expect? '-' s)
  let (_, s) ← bounded? 2 1 (daysIn year month) (← expect? '-' s)
  return s

/-- Passes over the parts of a second, if there are any. -/
def passParts? : List Char → Option (List Char)
  | '.' :: s => if (s.takeWhile Char.isDigit).isEmpty then none else some (s.dropWhile Char.isDigit)
  | s => some s

/-- Passes over a time, of which the seconds may be missing. A second may be a leap second. -/
def passTime? (s : List Char) : Option (List Char) := do
  let (_, s) ← bounded? 2 0 23 s
  let (_, s) ← bounded? 2 0 59 (← expect? ':' s)
  match s with
  | ':' :: s =>
    let (_, s) ← bounded? 2 0 60 s
    passParts? s
  | s => return s

/-- Whether the whole of a word is an offset from universal time, or nothing. -/
def isOffset : List Char → Bool
  | [] => true
  | ['Z'] => true
  | ['z'] => true
  | c :: s =>
    (c == '+' || c == '-') &&
      (do
        let (_, s) ← bounded? 2 0 23 s
        let (_, s) ← bounded? 2 0 59 (← expect? ':' s)
        return s.isEmpty : Option Bool).getD false

/-- Whether a word is a date, a time, or both with or without an offset. -/
def isMoment (s : List Char) : Bool :=
  match passDate? s with
  | some [] => true
  | some (c :: rest) =>
    (c == 'T' || c == 't' || c == ' ') && (passTime? rest).any isOffset
  | none => (passTime? s).any List.isEmpty

end Pinpoint.Toml
