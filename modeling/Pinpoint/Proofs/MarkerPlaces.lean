import Pinpoint.Proofs.MarkerReplace
import Pinpoint.Proofs.TextBytes

/-!
# Places of a marker

`Marker.finds` looks for a marker in the bytes of a text: for a run of blanks, as long as it can be,
and a token behind it. All of these are bytes of ASCII, and no other character has such a byte, so
the places found are those of the text itself: `finds_marker`, `finds_blanks` and `finds_char` say
so for each way a text may begin.
-/

namespace Pinpoint.Marker

open Utf8

/-- The bytes of a token. -/
def tokenBytes (m : Marker) : List UInt8 := encode m.token

def isBlankByte (b : UInt8) : Bool := b == 0x20 || (0x09 ≤ b && b ≤ 0x0D)

/-- How many bytes the marker takes that a text begins with: its blanks, as many as there are, and
its token. -/
def matched? (m : Marker) (bytes : List UInt8) : Option Nat :=
  let run := bytes.takeWhile isBlankByte
  if m.tokenBytes.isPrefixOf (bytes.drop run.length) then some (run.length + m.tokenBytes.length)
  else none

/-- The place of a marker, by the offsets where its blanks begin and where its token ends. -/
structure Found where
  start : Nat
  stop : Nat
deriving Repr, DecidableEq

/-- The bytes of a token begin with that of the low line. -/
theorem tokenBytes_eq_cons (m : Marker) : ∃ tail, m.tokenBytes = 0x5F :: tail := by
  cases m <;> exact ⟨_, rfl⟩

/-- A token has at least one byte. -/
theorem tokenBytes_length_pos (m : Marker) : 0 < m.tokenBytes.length := by
  obtain ⟨tail, htail⟩ := tokenBytes_eq_cons m
  simp [htail]

/-- A marker that is matched takes at least one byte. -/
theorem matched_pos {m : Marker} {bytes : List UInt8} {n : Nat} (h : m.matched? bytes = some n) :
    0 < n := by
  simp only [matched?, Option.ite_none_right_eq_some, Option.some.injEq] at h
  have := tokenBytes_length_pos m
  omega

/-- The places of a marker in the bytes from an offset on: from left to right, and each behind the
one before. -/
def finds (m : Marker) (offset : Nat) : List UInt8 → List Found
  | [] => []
  | b :: rest =>
    match _h : m.matched? (b :: rest) with
    | some n => ⟨offset, offset + n⟩ :: finds m (offset + n) ((b :: rest).drop n)
    | none => finds m (offset + 1) rest
termination_by bytes => bytes.length
decreasing_by
  · have := matched_pos _h
    simp only [List.length_drop, List.length_cons]
    omega
  · simp

/-! ## Places and characters -/

/-- A marker that begins the bytes is the first place found, and the search goes on behind it. -/
theorem finds_of_matched {m : Marker} {bytes : List UInt8} {n : Nat}
    (h : m.matched? bytes = some n) (offset : Nat) :
    m.finds offset bytes = ⟨offset, offset + n⟩ :: m.finds (offset + n) (bytes.drop n) := by
  cases bytes with
  | nil =>
      obtain ⟨tail, htail⟩ := tokenBytes_eq_cons m
      simp [matched?, htail] at h
  | cons b rest =>
      rw [finds]
      split
      · next h' =>
          rw [h] at h'
          cases h'
          rfl
      · next h' => simp [h] at h'

/-- Where no marker begins the bytes, the search goes on behind the first of them. -/
theorem finds_of_not_matched {m : Marker} {b : UInt8} {rest : List UInt8}
    (h : m.matched? (b :: rest) = none) (offset : Nat) :
    m.finds offset (b :: rest) = m.finds (offset + 1) rest := by
  rw [finds]
  split
  · next h' => simp [h] at h'
  · rfl

/-- A byte beyond ASCII is no blank. -/
theorem isBlankByte_high {b : UInt8} (h : 0x80 ≤ b) : isBlankByte b = false := by
  have hlow : ¬ b ≤ 0x0D := by
    rw [UInt8.le_iff_toNat_le] at *
    simp at *
    omega
  have hspace : b ≠ 0x20 := by
    rintro rfl
    exact absurd h (by decide)
  simp [isBlankByte, hlow, hspace]

/-- The blanks are bytes of ASCII, and no other character begins with one of them. -/
theorem utf8EncodeChar_blank (c : Char) :
    ∃ b more, String.utf8EncodeChar c = b :: more ∧ isBlankByte b = isBlank c ∧
      (∀ d ∈ more, 0x80 ≤ d) ∧ (isBlank c = true → more = []) := by
  have hascii : ∀ n < 0x80, isBlankByte (UInt8.ofNat n) = isBlank (Char.ofNat n) := by
    decide +kernel
  rcases utf8EncodeChar_cases c with ⟨hc, heq⟩ | ⟨hc, hhigh⟩
  · refine ⟨_, [], heq, ?_, by simp, fun _ => rfl⟩
    rw [hascii c.toNat (by omega), Char.ofNat_toNat]
  · have hblank : isBlank c = false := by
      have hval : ¬ c.val ≤ 0x0D := by
        rw [UInt32.le_iff_toNat_le, Char.toNat_val]
        simp
        omega
      have hspace : c ≠ ' ' := by
        rintro rfl
        exact absurd hc (by decide)
      simp [isBlank, hval, hspace]
    obtain ⟨b, more, heq⟩ := exists_utf8EncodeChar c
    rw [heq] at hhigh
    refine ⟨b, more, heq, ?_, fun d hd => hhigh d (by simp [hd]), by simp [hblank]⟩
    rw [hblank, isBlankByte_high (hhigh b (by simp))]

/-- The blank bytes that begin a text are those of its run of blanks. -/
theorem takeWhile_encode {run text : List Char} (hrun : AllBlank run)
    (htext : ∀ c ∈ text.head?, isBlank c = false) :
    (encode (run ++ text)).takeWhile isBlankByte = encode run := by
  induction run with
  | nil =>
      cases text with
      | nil => rfl
      | cons c text =>
          obtain ⟨b, more, heq, hb, -, -⟩ := utf8EncodeChar_blank c
          rw [htext c (by simp)] at hb
          simp [encode_cons, heq, hb]
  | cons c run ih =>
      have hc := hrun c (by simp)
      obtain ⟨b, more, heq, hb, -, hmore⟩ := utf8EncodeChar_blank c
      rw [hc] at hb
      rw [List.cons_append, encode_cons, encode_cons, heq, hmore hc, List.singleton_append,
        List.takeWhile_cons_of_pos hb, ih fun d hd => hrun d (by simp [hd]), List.singleton_append]

/-- Bytes beyond ASCII are passed over. -/
theorem finds_high (m : Marker) (offset : Nat) {word : List UInt8} (hword : ∀ b ∈ word, 0x80 ≤ b)
    (rest : List UInt8) : m.finds offset (word ++ rest) = m.finds (offset + word.length) rest := by
  induction word generalizing offset with
  | nil => rfl
  | cons b word ih =>
      have hb := hword b (by simp)
      have hnone : m.matched? (b :: (word ++ rest)) = none := by
        have hunderscore : 0x5F ≠ b := by
          rintro rfl
          exact absurd hb (by decide)
        obtain ⟨tail, htail⟩ := tokenBytes_eq_cons m
        simp [matched?, isBlankByte_high hb, htail, hunderscore]
      rw [List.cons_append, finds_of_not_matched hnone, ih _ fun d hd => hword d (by simp [hd])]
      simp [Nat.add_comm, Nat.add_left_comm]

/-- A token is written in ASCII. -/
theorem token_ascii (m : Marker) : ∀ c ∈ m.token, c.toNat ≤ 0x7F := by
  rw [← List.forall_mem_map (P := (· ≤ 0x7F))]
  cases m <;> decide

/-- A marker is found in the bytes where it is in the text. -/
theorem matched_encode (m : Marker) {run text : List Char} (hrun : AllBlank run)
    (htext : ∀ c ∈ text.head?, isBlank c = false) :
    m.matched? (encode (run ++ text)) =
      if m.token <+: text then some (encode (run ++ m.token)).length else none := by
  have hdrop : (encode (run ++ text)).drop (encode run).length = encode text := by simp
  simp only [matched?, takeWhile_encode hrun htext, hdrop, List.isPrefixOf_iff_prefix, tokenBytes,
    prefix_encode_iff (token_ascii m)]
  rw [encode_append run m.token, List.length_append]

/-- A marker that begins a text is found with all the blanks before its token. -/
theorem finds_marker (m : Marker) (offset : Nat) {run : List Char} (hrun : AllBlank run)
    (left : List Char) :
    m.finds offset (encode (run ++ (m.token ++ left))) =
      ⟨offset, offset + (encode (run ++ m.token)).length⟩ ::
        m.finds (offset + (encode (run ++ m.token)).length) (encode left) := by
  have htext : ∀ c ∈ (m.token ++ left).head?, isBlank c = false := by
    obtain ⟨tail, htail⟩ := token_eq_cons m
    simp [htail]
    decide
  have hmatched := matched_encode m hrun htext
  rw [if_pos (List.prefix_append _ _)] at hmatched
  rw [finds_of_matched hmatched]
  simp [← List.append_assoc]

/-- Blanks are passed over if no token follows them. -/
theorem finds_blanks {m : Marker} (offset : Nat) {run text : List Char} (hrun : AllBlank run)
    (htext : ∀ c ∈ text.head?, isBlank c = false) (htoken : ¬ m.token <+: text) :
    m.finds offset (encode (run ++ text)) =
      m.finds (offset + (encode run).length) (encode text) := by
  induction run generalizing offset with
  | nil => rfl
  | cons c run ih =>
      have hmatched := matched_encode m hrun htext
      rw [if_neg htoken] at hmatched
      obtain ⟨b, more, heq, -, -, hmore⟩ := utf8EncodeChar_blank c
      rw [hmore (hrun c (by simp))] at heq
      rw [List.cons_append, encode_cons, heq, List.singleton_append] at hmatched ⊢
      rw [finds_of_not_matched hmatched, ih _ fun d hd => hrun d (by simp [hd]), encode_cons, heq]
      simp [Nat.add_assoc, Nat.add_comm]

/-- A character that begins no marker is passed over with all its bytes. -/
theorem finds_char {m : Marker} (offset : Nat) {c : Char} {rest : List Char}
    (hc : isBlank c = false) (htoken : ¬ m.token <+: c :: rest) :
    m.finds offset (encode (c :: rest)) =
      m.finds (offset + (encode [c]).length) (encode rest) := by
  have hmatched := @matched_encode m [] (c :: rest) (by simp [AllBlank]) (by simpa using hc)
  obtain ⟨b, more, heq, -, hmore, -⟩ := utf8EncodeChar_blank c
  rw [if_neg htoken, List.nil_append, encode_cons, heq, List.cons_append] at hmatched
  rw [encode_cons, heq, List.cons_append, finds_of_not_matched hmatched, finds_high m _ hmore]
  have hsize : (encode [c]).length = 1 + more.length := by
    simp [encode, heq, Nat.add_comm]
  rw [hsize, Nat.add_assoc]

end Pinpoint.Marker
