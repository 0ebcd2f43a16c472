/-!
# Text held in bytes

`Utf8.decode` reads any sequence of bytes as text: each longest part that begins a character but
does not finish it becomes one replacement character. `tail_length_le` is why it ends.
-/

namespace Pinpoint.Utf8

/-- The character that stands for bytes that are no text. -/
def replacement : Char := '\uFFFD'

/-- What a first byte announces: its own bits, and the bounds of each byte that must follow. -/
structure Lead where
  bits : Nat
  bounds : List (UInt8 × UInt8)
deriving Repr, DecidableEq

/-- The bounds of a following byte that is not restricted further. -/
def following : UInt8 × UInt8 := (0x80, 0xBF)

/-- Reads a first byte. The bounds after `E0`, `ED`, `F0` and `F4` leave out overlong forms,
surrogates and code points past U+10FFFF. -/
def lead? (b : UInt8) : Option Lead :=
  if b ≤ 0x7F then some ⟨b.toNat, []⟩
  else if b < 0xC2 then none
  else if b ≤ 0xDF then some ⟨b.toNat - 0xC0, [following]⟩
  else if b = 0xE0 then some ⟨0, [(0xA0, 0xBF), following]⟩
  else if b = 0xED then some ⟨0xD, [(0x80, 0x9F), following]⟩
  else if b ≤ 0xEF then some ⟨b.toNat - 0xE0, [following, following]⟩
  else if b = 0xF0 then some ⟨0, [(0x90, 0xBF), following, following]⟩
  else if b ≤ 0xF3 then some ⟨b.toNat - 0xF0, [following, following, following]⟩
  else if b = 0xF4 then some ⟨4, [(0x80, 0x8F), following, following]⟩
  else none

/-- Reads the bytes that must follow, as far as they fit; without a code point if one is missing. -/
def tail : List (UInt8 × UInt8) → Nat → List UInt8 → Option Nat × List UInt8
  | [], bits, bytes => (some bits, bytes)
  | _ :: _, _, [] => (none, [])
  | (low, high) :: bounds, bits, b :: bytes =>
    if low ≤ b ∧ b ≤ high then tail bounds (bits * 64 + (b.toNat - 0x80)) bytes
    else (none, b :: bytes)

/-- The bytes that are left behind a character are no more than there were. -/
theorem tail_length_le (bounds : List (UInt8 × UInt8)) (bits : Nat) (bytes : List UInt8) :
    (tail bounds bits bytes).2.length ≤ bytes.length := by
  induction bounds generalizing bits bytes with
  | nil => simp [tail]
  | cons bound bounds ih =>
      cases bytes with
      | nil => simp [tail]
      | cons b bytes =>
          rw [tail]
          split
          · exact Nat.le_succ_of_le (ih ..)
          · exact Nat.le_refl _

/-- The text of any bytes, with `replacement` for each part that is none. -/
def decode : List UInt8 → List Char
  | [] => []
  | b :: bytes =>
    match lead? b with
    | none => replacement :: decode bytes
    | some lead =>
      have := tail_length_le lead.bounds lead.bits bytes
      ((tail lead.bounds lead.bits bytes).1.elim replacement Char.ofNat) ::
        decode (tail lead.bounds lead.bits bytes).2
termination_by bytes => bytes.length

end Pinpoint.Utf8
