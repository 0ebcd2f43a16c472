import Pinpoint.Mismatch

/-!
# The smallest parts of a JSON document

Each reader takes what is left of a document and gives the part with what follows it. A document
that stops inside a part has `ended`; one that goes on wrongly is `malformed`. A part that is passed
over is checked less than one that is read: `passText` lets single surrogates through.
-/

namespace Pinpoint.Json

/-- Why a document cannot be read. -/
inductive Fault where
  /-- The document stops too early. -/
  | ended
  /-- The document is no JSON, or nests too deeply. -/
  | malformed
  /-- The document says something else than its reader wants. -/
  | mismatch (what : Mismatch)
deriving Repr, DecidableEq

/-- The four blanks between the parts of a document. -/
def isBlank (c : Char) : Bool :=
  c == ' ' || c == '\n' || c == '\t' || c == '\r'

def skipBlanks (s : List Char) : List Char := s.dropWhile isBlank

/-- Reads the rest of a fixed word. -/
def word : List Char → List Char → Except Fault (List Char)
  | [], s => .ok s
  | _ :: _, [] => .error .ended
  | w :: more, c :: s => if c = w then word more s else .error .malformed

/-- The value of a digit in base sixteen. -/
def hexValue? (c : Char) : Option Nat :=
  if '0' ≤ c ∧ c ≤ '9' then some (c.toNat - '0'.toNat)
  else if 'a' ≤ c ∧ c ≤ 'f' then some (c.toNat - 'a'.toNat + 10)
  else if 'A' ≤ c ∧ c ≤ 'F' then some (c.toNat - 'A'.toNat + 10)
  else none

/-- Reads four digits in base sixteen. A document with fewer than four bytes left has ended. -/
def fourHex : List Char → Except Fault (Nat × List Char)
  | a :: b :: c :: d :: rest =>
    match hexValue? a, hexValue? b, hexValue? c, hexValue? d with
    | some a, some b, some c, some d => .ok (((a * 16 + b) * 16 + c) * 16 + d, rest)
    | _, _, _, _ => .error .malformed
  | rest =>
    if (String.ofList rest).utf8ByteSize < 4 then .error .ended else .error .malformed

/-- Four digits that are read shorten what is left. -/
theorem fourHex_length {s : List Char} {n : Nat} {rest : List Char}
    (h : fourHex s = .ok (n, rest)) : rest.length < s.length := by
  unfold fourHex at h
  split at h
  · split at h
    · injection h with h
      injection h with _ h
      subst h
      simp only [List.length_cons]
      omega
    · cases h
  · split at h <;> cases h

/-- The character that a letter stands for behind a backslash. -/
def shortEscape? (c : Char) : Option Char :=
  if c = '"' then some '"'
  else if c = '\\' then some '\\'
  else if c = '/' then some '/'
  else if c = 'b' then some '\x08'
  else if c = 'f' then some '\x0c'
  else if c = 'n' then some '\n'
  else if c = 'r' then some '\r'
  else if c = 't' then some '\t'
  else none

def isLeading (unit : Nat) : Bool := 0xD800 ≤ unit && unit ≤ 0xDBFF

def isTrailing (unit : Nat) : Bool := 0xDC00 ≤ unit && unit ≤ 0xDFFF

/-- The character of a leading and a trailing surrogate. -/
def joinSurrogates (leading trailing : Nat) : Char :=
  Char.ofNat (0x10000 + (leading - 0xD800) * 0x400 + (trailing - 0xDC00))

/-- Reads the trailing surrogate that must follow a leading one. -/
def trailing (leading : Nat) : List Char → Except Fault (Char × List Char)
  | [] => .error .ended
  | c :: rest =>
    if c = '\\' then
      match rest with
      | [] => .error .ended
      | d :: rest =>
        if d = 'u' then
          match fourHex rest with
          | .error e => .error e
          | .ok (unit, rest) =>
            if isTrailing unit then .ok (joinSurrogates leading unit, rest) else .error .malformed
        else .error .malformed
    else .error .malformed

/-- A trailing surrogate that is read shortens what is left. -/
theorem trailing_length {leading : Nat} {s : List Char} {c : Char} {rest : List Char}
    (h : trailing leading s = .ok (c, rest)) : rest.length < s.length := by
  unfold trailing at h
  split at h
  · cases h
  · split at h
    · split at h
      · cases h
      · split at h
        · split at h
          · cases h
          · rename_i hex
            split at h
            · have := fourHex_length hex
              injection h with h
              injection h with _ h
              subst h
              simp only [List.length_cons]
              omega
            · cases h
        · cases h
    · cases h

/-- Reads what stands behind a backslash. -/
def escape : List Char → Except Fault (Char × List Char)
  | [] => .error .ended
  | c :: rest =>
    if c = 'u' then
      match fourHex rest with
      | .error e => .error e
      | .ok (unit, rest) =>
        if isTrailing unit then .error .malformed
        else if isLeading unit then trailing unit rest
        else .ok (Char.ofNat unit, rest)
    else
      match shortEscape? c with
      | some c => .ok (c, rest)
      | none => .error .malformed

/-- An escape that is read shortens what is left. -/
theorem escape_length {s : List Char} {c : Char} {rest : List Char}
    (h : escape s = .ok (c, rest)) : rest.length < s.length := by
  unfold escape at h
  split at h
  · cases h
  · split at h
    · split at h
      · cases h
      · rename_i hex
        have := fourHex_length hex
        split at h
        · cases h
        · split at h
          · have := trailing_length h
            simp only [List.length_cons]
            omega
          · injection h with h
            injection h with _ h
            subst h
            simp only [List.length_cons]
            omega
    · split at h
      · injection h with h
        injection h with _ h
        subst h
        simp
      · cases h

/-- Reads a text behind its opening quotation mark; `done` holds what was read, last first. -/
def text (done : List Char) (s : List Char) : Except Fault (String × List Char) :=
  match s with
  | [] => .error .ended
  | c :: rest =>
    if c = '"' then .ok (String.ofList done.reverse, rest)
    else if c = '\\' then
      match h : escape rest with
      | .error e => .error e
      | .ok (c, rest') =>
        have := escape_length h
        text (c :: done) rest'
    else if c.val < 0x20 then .error .malformed
    else text (c :: done) rest
termination_by s.length
decreasing_by all_goals simp only [List.length_cons]; omega

/-- Passes over what stands behind a backslash. -/
def passEscape : List Char → Except Fault (List Char)
  | [] => .error .ended
  | c :: rest =>
    if c = 'u' then
      match fourHex rest with
      | .error e => .error e
      | .ok (_, rest) => .ok rest
    else if (shortEscape? c).isSome then .ok rest
    else .error .malformed

/-- An escape that is passed over shortens what is left. -/
theorem passEscape_length {s rest : List Char} (h : passEscape s = .ok rest) :
    rest.length < s.length := by
  unfold passEscape at h
  split at h
  · cases h
  · split at h
    · split at h
      · cases h
      · rename_i hex
        have := fourHex_length hex
        injection h with h
        subst h
        simp only [List.length_cons]
        omega
    · split at h
      · injection h with h
        subst h
        simp
      · cases h

/-- Passes over a text behind its opening quotation mark. -/
def passText (s : List Char) : Except Fault (List Char) :=
  match s with
  | [] => .error .ended
  | c :: rest =>
    if c = '"' then .ok rest
    else if c = '\\' then
      match h : passEscape rest with
      | .error e => .error e
      | .ok rest' =>
        have := passEscape_length h
        passText rest'
    else if c.val < 0x20 then .error .malformed
    else passText rest
termination_by s.length
decreasing_by all_goals simp only [List.length_cons]; omega

end Pinpoint.Json
