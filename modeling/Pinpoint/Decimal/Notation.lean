import Pinpoint.Decimal.Shortest

/-!
# How decimals are written

A `Layout` says for which exponents of the leading digit a decimal is written positionally. All
others are written with one digit before the point and a signed exponent.
-/

namespace Pinpoint.Decimal

/-- The bounds of the positional form, as exponents of the leading digit. -/
structure Layout where
  plainFrom : Option Int
  plainUpTo : Option Int
deriving Repr, DecidableEq

namespace Layout

def isPlain (n : Layout) (exponent : Int) : Bool :=
  n.plainFrom.all (· ≤ exponent) && n.plainUpTo.all (exponent ≤ ·)

/-- Zeros before a point that stands left of all digits, the digits, or zeros after them. -/
def plain (digits : List Char) (exponent : Int) : List Char :=
  let point := digits.length + exponent
  if point ≤ 0 then ['0', '.'] ++ List.replicate (-point).toNat '0' ++ digits
  else if exponent < 0 then
    digits.take point.toNat ++ '.' :: digits.drop point.toNat
  else digits ++ List.replicate exponent.toNat '0' ++ ['.', '0']

/-- One digit, a point if more follow, and the exponent with its sign. -/
def scientific (digits : List Char) (exponent : Int) : List Char :=
  let power := exponent + digits.length - 1
  digits.take 1 ++ (if digits.length = 1 then [] else '.' :: digits.drop 1) ++
    ['e', if power < 0 then '-' else '+'] ++ Nat.toDigits 10 power.natAbs

/-- Writes a positive decimal. -/
def write (n : Layout) (d : Decimal) : List Char :=
  let digits := Nat.toDigits 10 d.digits
  if n.isPlain (d.exponent + digits.length - 1) then plain digits d.exponent
  else scientific digits d.exponent

/-- Writes a double with the fewest digits that read back. -/
def float (n : Layout) (x : Float) : String :=
  if x.isNaN then "NaN"
  else
    let sign := if x.toBits.toNat / Nat.pow 2 63 = 1 then "-" else ""
    let bits := x.toBits.toNat % Nat.pow 2 63
    if x.isInf then sign ++ "inf"
    else if bits = 0 then sign ++ "0.0"
    else sign ++ String.ofList (n.write (shortest (.ofBits bits)))

end Layout

end Pinpoint.Decimal
