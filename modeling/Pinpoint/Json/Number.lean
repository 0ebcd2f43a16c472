import Pinpoint.Decimal.Notation
import Pinpoint.Json.Lexeme

/-!
# Numbers of a JSON document

A whole number that fits 64 bits is kept as it is. Any other is rounded to a double: first the
leading digits that fit 64 bits, then their product or quotient with a power of ten.
-/

namespace Pinpoint.Json

inductive Number where
  | whole (value : Int)
  | real (value : Float)

namespace Number

/-- The form in which doubles are shown: positional from five zeros behind the point up to sixteen
digits before it. -/
def layout : Decimal.Layout := ⟨some (-5), some 15⟩

/-- The number as a reader that wants something else names it. -/
def found : Number → Found
  | whole value => .integer value
  | real value => .real (layout.float value)

/-- The digits that a number keeps, and the power of ten that they are counted in. -/
structure Kept where
  digits : Nat
  power : Int
  /-- Whether a digit was dropped already. -/
  full : Bool

/-- The greatest number of 64 bits. -/
def limit : Nat := Nat.pow 2 64 - 1

/-- Keeps a digit before the point, unless the digits would not fit 64 bits. -/
def Kept.addWhole (k : Kept) (c : Char) : Kept :=
  let next := k.digits * 10 + (c.toNat - '0'.toNat)
  if k.full || limit < next then { k with power := k.power + 1, full := true }
  else { k with digits := next }

/-- Keeps a digit behind the point, unless the digits would not fit 64 bits. -/
def Kept.addPart (k : Kept) (c : Char) : Kept :=
  let next := k.digits * 10 + (c.toNat - '0'.toNat)
  if k.full || limit < next then { k with full := true }
  else { k with digits := next, power := k.power - 1 }

/-- The power of ten nearest to `10 ^ n`. -/
def powerOfTen (n : Nat) : Float := Float.ofScientific 1 false n

/-- Divides by `10 ^ n`, in steps that a power of ten has; four steps leave nothing of a double. -/
def divide : Nat → Float → Nat → Float
  | 0, _, _ => 0
  | steps + 1, x, n =>
    if n ≤ 308 then x / powerOfTen n else divide steps (x / powerOfTen 308) (n - 308)

/-- The double of a count of powers of ten, unless it is too great. -/
def scale? (digits : Nat) (power : Int) : Option Float :=
  let x := digits.toUInt64.toFloat
  if digits = 0 then some 0
  else if power < 0 then some (divide 4 x power.natAbs)
  else if power ≤ 308 then
    let scaled := x * powerOfTen power.natAbs
    if scaled.isInf then none else some scaled
  else none

/-- The digits that a text begins with, and what follows them. -/
def digits (s : List Char) : List Char × List Char := s.span Char.isDigit

/-- A number that lacks a digit: the document has ended or goes on wrongly. -/
def lacking : List Char → Fault
  | [] => .ended
  | _ => .malformed

/-- Reads the digits before the point. A zero stands alone. -/
def whole? (s : List Char) : Except Fault (List Char × List Char) :=
  match digits s with
  | ([], rest) => .error (lacking rest)
  | ('0' :: _ :: _, _) => .error .malformed
  | (ds, rest) => .ok (ds, rest)

/-- Reads the digits behind the point, if there is one. -/
def part? : List Char → Except Fault (Option (List Char) × List Char)
  | '.' :: s =>
    match digits s with
    | ([], rest) => .error (lacking rest)
    | (ds, rest) => .ok (some ds, rest)
  | s => .ok (none, s)

/-- Reads the sign and the digits of an exponent, if there is one. -/
def exponent? : List Char → Except Fault (Option Int × List Char)
  | c :: s =>
    if c = 'e' ∨ c = 'E' then
      let (negative, s) :=
        match s with
        | '+' :: s => (false, s)
        | '-' :: s => (true, s)
        | s => (false, s)
      match digits s with
      | ([], rest) => .error (lacking rest)
      | (ds, rest) =>
        let n : Int := ds.foldl (fun n c => n * 10 + (c.toNat - '0'.toNat)) 0
        .ok (some (if negative then -n else n), rest)
    else .ok (none, c :: s)
  | [] => .ok (none, [])

/-- The number of kept digits, rounded and signed. -/
def ofKept (negative : Bool) (k : Kept) (exponent : Int) : Except Fault Number :=
  match scale? k.digits (k.power + exponent) with
  | none => .error .malformed
  | some x => .ok (.real (if negative then -x else x))

/-- Reads a number behind its sign. -/
def read (negative : Bool) (s : List Char) : Except Fault (Number × List Char) := do
  let (ds, s) ← whole? s
  let (part, s) ← part? s
  let (exponent, s) ← exponent? s
  let kept := ds.foldl Kept.addWhole ⟨0, 0, false⟩
  match part, exponent with
  | none, none =>
    if kept.full then return (← ofKept negative kept 0, s)
    else if !negative then return (.whole kept.digits, s)
    else if kept.digits = 0 ∨ Nat.pow 2 63 < kept.digits then return (← ofKept true kept 0, s)
    else return (.whole (-(kept.digits : Int)), s)
  | _, _ =>
    let kept := (part.getD []).foldl Kept.addPart { kept with full := false }
    return (← ofKept negative kept (exponent.getD 0), s)

/-- Passes over digits, of which there must be one. -/
def passDigits (s : List Char) : Except Fault (List Char) :=
  match digits s with
  | ([], _) => .error .malformed
  | (_, rest) => .ok rest

/-- Passes over a number behind its sign. Where a digit is lacking it is malformed, even where the
document ends. -/
def pass (s : List Char) : Except Fault (List Char) := do
  let s ←
    match s with
    | '0' :: c :: s => if c.isDigit then .error .malformed else .ok (c :: s)
    | s => passDigits s
  let s ←
    match s with
    | '.' :: s => passDigits s
    | s => .ok s
  match s with
  | c :: rest =>
    if c = 'e' ∨ c = 'E' then
      match rest with
      | '+' :: rest => passDigits rest
      | '-' :: rest => passDigits rest
      | rest => passDigits rest
    else .ok s
  | [] => .ok []

end Number

end Pinpoint.Json
