/-!
# The fewest digits that read back

A finite double is a mantissa times a power of two. `Decimal.shortest` looks for it on coarser
decimal grids first: the first grid on which a neighbour of the value reads back as the value gives
the digits. All comparisons are made on natural numbers.
-/

namespace Pinpoint

/-- The positive value `mantissa · 2 ^ exponent`, with the distance below it that reads back halved
when `narrow` holds. -/
structure Binary where
  mantissa : Nat
  exponent : Int
  narrow : Bool
deriving Repr, DecidableEq

/-- The value `digits · 10 ^ exponent`. -/
structure Decimal where
  digits : Nat
  exponent : Int
deriving Repr, DecidableEq

namespace Binary

/-- Reads the bits of a positive finite double. -/
def ofBits (bits : Nat) : Binary :=
  let fraction : Nat := bits % Nat.pow 2 52
  let biased : Nat := bits / Nat.pow 2 52 % Nat.pow 2 11
  if biased = 0 then ⟨fraction, -1074, false⟩
  else ⟨Nat.pow 2 52 + fraction, (biased : Int) - 1075, fraction == 0 && 1 < biased⟩

/-- The value as a quotient of natural numbers, in quarters of a unit of the mantissa. -/
def numerator (b : Binary) : Nat := Nat.pow 2 b.exponent.toNat

def denominator (b : Binary) : Nat := 4 * Nat.pow 2 (-b.exponent).toNat

/-- The least number of quarters that reads back. -/
def low (b : Binary) : Nat := 4 * b.mantissa - if b.narrow then 1 else 2

/-- The greatest number of quarters that reads back. -/
def high (b : Binary) : Nat := 4 * b.mantissa + 2

end Binary

namespace Decimal

/-- `d` as a count of quarters of `b`, times a common factor that `scale` gives for `b`'s side. -/
def quarters (b : Binary) (d : Decimal) : Nat :=
  d.digits * Nat.pow 10 d.exponent.toNat * b.denominator

/-- The factor that makes quarters of `b` comparable with `quarters b d`. -/
def scale (b : Binary) (exponent : Int) : Nat :=
  b.numerator * Nat.pow 10 (-exponent).toNat

/-- Whether `d` reads back as `b`; the ends belong to an even mantissa. -/
def readsBack (b : Binary) (d : Decimal) : Bool :=
  let place := quarters b d
  let unit := scale b d.exponent
  if b.mantissa % 2 = 0 then b.low * unit ≤ place && place ≤ b.high * unit
  else b.low * unit < place && place < b.high * unit

/-- The greatest point of the grid `10 ^ exponent` that is not above `b`. -/
def below (b : Binary) (exponent : Int) : Nat :=
  (4 * b.mantissa * scale b exponent) / (Nat.pow 10 exponent.toNat * b.denominator)

/-- The neighbour of `b` on the grid `10 ^ exponent` that reads back, the nearer one of two, and of
two equally near the even one. -/
def onGrid? (b : Binary) (exponent : Int) : Option Decimal :=
  let lower : Decimal := ⟨below b exponent, exponent⟩
  let upper : Decimal := ⟨lower.digits + 1, exponent⟩
  match readsBack b lower, readsBack b upper with
  | false, false => none
  | true, false => some lower
  | false, true => some upper
  | true, true =>
    let middle := 8 * b.mantissa * scale b exponent
    let sum := quarters b lower + quarters b upper
    some (if middle < sum ∨ (middle = sum ∧ lower.digits % 2 = 0) then lower else upper)

/-- Moves factors of ten from the digits to the exponent. -/
def strip : Nat → Decimal → Decimal
  | 0, d => d
  | fuel + 1, d =>
    if d.digits % 10 = 0 ∧ d.digits ≠ 0 then strip fuel ⟨d.digits / 10, d.exponent + 1⟩ else d

/-- The exponents of the grids to try, the coarsest first. Every double has a neighbour on the grid
of its seventeenth digit that reads back, and none on the first. -/
def grids (b : Binary) : List Int :=
  let magnitude := (Nat.log2 b.mantissa : Int) + b.exponent
  let top := magnitude * 30103 / 100000 + 2
  (List.range 22).map fun (i : Nat) => top - Int.ofNat i

/-- The shortest decimal that reads back as `b`, and the nearest to it of that length. -/
def shortest (b : Binary) : Decimal :=
  match (grids b).findSome? (onGrid? b) with
  | some d => strip 20 d
  | none => ⟨b.mantissa, 0⟩

end Decimal

end Pinpoint
