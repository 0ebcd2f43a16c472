import Pinpoint.Text.Utf8

/-!
# The bytes of a text

A text is held in bytes, and its parts are taken by byte offsets. `slice?` takes a part only where
the offsets are in order, in range and between two characters. An offset is such if the text can be
cut there: `slice_encode` takes a part by the texts before and behind it, and `isValid_of_append` is
the same for strings.
-/

namespace Pinpoint.Utf8

/-- The bytes of a text. -/
def encode (text : List Char) : List UInt8 := text.flatMap String.utf8EncodeChar

/-- The empty text has no bytes. -/
@[simp] theorem encode_nil : encode [] = [] := rfl

/-- The bytes of a text are those of its first character and those of the rest. -/
theorem encode_cons (c : Char) (text : List Char) :
    encode (c :: text) = String.utf8EncodeChar c ++ encode text := rfl

/-- The bytes of a text in two parts are those of its parts. -/
@[simp] theorem encode_append (text more : List Char) :
    encode (text ++ more) = encode text ++ encode more :=
  List.flatMap_append

/-- The bytes of the characters of a string are those that it is held in. -/
theorem encode_toList (text : String) : encode text.toList = text.toUTF8.data.toList := by
  have h : text.toUTF8 = text.toList.utf8Encode := by
    rw [String.toUTF8_eq_toByteArray, ← String.toByteArray_ofList, String.ofList_toList]
  rw [h, List.utf8Encode, List.toList_data_toByteArray, encode]

/-- Each character has a first byte. -/
theorem exists_utf8EncodeChar (c : Char) : ∃ b more, String.utf8EncodeChar c = b :: more := by
  refine List.exists_cons_of_length_pos ?_
  rw [String.length_utf8EncodeChar]
  exact c.utf8Size_pos

/-- A sum of two numbers that stays below 256 is not below 128 if one of the two is not, also as
bytes. -/
theorem le_ofNat_add (n base : Nat) (hbase : 0x80 ≤ base) (hsum : n + base < 0x100) :
    0x80 ≤ UInt8.ofNat n + UInt8.ofNat base := by
  rw [UInt8.le_iff_toNat_le]
  simp
  omega

/-- A character is one byte of ASCII, or some bytes beyond. -/
theorem utf8EncodeChar_cases (c : Char) :
    (c.toNat ≤ 0x7F ∧ String.utf8EncodeChar c = [UInt8.ofNat c.toNat]) ∨
      (0x7F < c.toNat ∧ ∀ b ∈ String.utf8EncodeChar c, 0x80 ≤ b) := by
  by_cases hc : c.toNat ≤ 0x7F
  · exact .inl ⟨hc, by simp [String.utf8EncodeChar, hc]⟩
  · refine .inr ⟨by omega, ?_⟩
    have hfollowing : ∀ n, 0x80 ≤ UInt8.ofNat (n % 64) + 128 := fun n =>
      le_ofNat_add _ 128 (by decide) (by omega)
    simp only [String.utf8EncodeChar, Char.toNat_val, hc, ite_false]
    split
    · have hfirst := le_ofNat_add (c.toNat / 64 % 32) 192 (by decide) (by omega)
      simpa using ⟨hfirst, hfollowing _⟩
    · split
      · have hfirst := le_ofNat_add (c.toNat / 4096 % 16) 224 (by decide) (by omega)
        simpa using ⟨hfirst, hfollowing _, hfollowing _⟩
      · have hfirst := le_ofNat_add (c.toNat / 262144 % 8) 240 (by decide) (by omega)
        simpa using ⟨hfirst, hfollowing _, hfollowing _, hfollowing _⟩

/-- Whether an offset lies between two characters. -/
def isEdge (bytes : List UInt8) (offset : Nat) : Bool :=
  offset == bytes.length || bytes[offset]?.any fun b => decide b.IsUTF8FirstByte

/-- The bytes from one offset up to another, if these are in order, in range and cut no
character. -/
def slice? (bytes : List UInt8) (start stop : Nat) : Option (List UInt8) :=
  if start ≤ stop ∧ isEdge bytes start ∧ isEdge bytes stop then
    some ((bytes.drop start).take (stop - start))
  else none

/-- The end of the first part of a text is an edge of its bytes. -/
theorem isEdge_encode (front back : List Char) :
    isEdge (encode (front ++ back)) (encode front).length = true := by
  cases back with
  | nil => simp [isEdge]
  | cons c back =>
      have hpos : 0 < (String.utf8EncodeChar c).length := by
        obtain ⟨b, more, heq⟩ := exists_utf8EncodeChar c
        simp [heq]
      rw [isEdge, encode_append, encode_cons, List.getElem?_append_right (Nat.le_refl _),
        Nat.sub_self, List.getElem?_append_left hpos, List.getElem?_eq_getElem hpos]
      simp

/-- Between the ends of two parts of a text stand the bytes of what is between them. -/
theorem slice_encode (front between back : List Char) :
    slice? (encode (front ++ (between ++ back))) (encode front).length
      (encode (front ++ between)).length = some (encode between) := by
  have hstart := isEdge_encode front (between ++ back)
  have hstop := isEdge_encode (front ++ between) back
  rw [List.append_assoc] at hstop
  have hle : (encode front).length ≤ (encode (front ++ between)).length := by simp
  rw [slice?, if_pos ⟨hle, hstart, hstop⟩]
  simp

/-- The size of a string is the number of bytes of its characters. -/
theorem utf8ByteSize_eq (text : String) : text.utf8ByteSize = (encode text.toList).length := by
  rw [encode_toList, String.toUTF8_eq_toByteArray, Array.length_toList]
  rfl

/-- The end of the first part of a string is a position in it. -/
theorem isValid_of_append {text : String} {front back : List Char}
    (h : text.toList = front ++ back) :
    String.Pos.Raw.IsValid text ⟨(encode front).length⟩ := by
  rw [String.Pos.Raw.isValid_iff_exists_append]
  refine ⟨String.ofList front, String.ofList back, ?_, ?_⟩
  · rw [← String.ofList_append, ← h, String.ofList_toList]
  · have hsize := utf8ByteSize_eq (String.ofList front)
    rw [String.toList_ofList] at hsize
    rw [← hsize]
    rfl

/-- A word of ASCII begins the bytes of a text exactly if it begins the text. -/
theorem prefix_encode_iff {word : List Char} (hword : ∀ c ∈ word, c.toNat ≤ 0x7F)
    (text : List Char) : encode word <+: encode text ↔ word <+: text := by
  constructor
  · intro h
    induction word generalizing text with
    | nil => exact List.nil_prefix
    | cons d word ih =>
        have hd := hword d (by simp)
        have hbyte : String.utf8EncodeChar d = [UInt8.ofNat d.toNat] := by
          simp [String.utf8EncodeChar, hd]
        rw [encode_cons, hbyte, List.singleton_append] at h
        cases text with
        | nil => simp at h
        | cons c text =>
            rcases utf8EncodeChar_cases c with ⟨hc, heq⟩ | ⟨hc, hhigh⟩
            · rw [encode_cons, heq, List.singleton_append, List.cons_prefix_cons] at h
              obtain ⟨hfirst, hrest⟩ := h
              have hdc : d = c := by
                have := congrArg UInt8.toNat hfirst
                simp only [UInt8.toNat_ofNat'] at this
                exact Char.toNat_inj.1 (by omega)
              subst hdc
              have hrest' := ih (fun e he => hword e (by simp [he])) text hrest
              exact List.cons_prefix_cons.2 ⟨rfl, hrest'⟩
            · -- The first byte of a character beyond ASCII begins no word of ASCII.
              obtain ⟨b, more, heq⟩ := exists_utf8EncodeChar c
              rw [encode_cons, heq, List.cons_append, List.cons_prefix_cons] at h
              have hb := hhigh b (by simp [heq])
              rw [← h.1, UInt8.le_iff_toNat_le] at hb
              simp at hb
              omega
  · rintro ⟨rest, rfl⟩
    rw [encode_append]
    exact List.prefix_append _ _

end Pinpoint.Utf8
