import Pinpoint.Proofs.JsonReading

/-!
# Values as documents spell them

The same value can be spelled in many ways: with blanks between its parts, with any character of a
text behind a backslash, with members in any order. `Value` keeps all of this, so that its spelling
is a function of it, and every text that is JSON is the spelling of some value with blanks around.
What the letters of a text say is `textOf?`: nothing, if a surrogate stands alone.
-/

namespace Pinpoint.Json

open Document (comma)

/-- Blanks between the parts of a document. -/
structure Blanks where
  chars : List Char
  blank : ∀ c ∈ chars, isBlank c = true

/-- Where there is nothing, there is no character that is not blank. -/
theorem blank_of_mem_nil : ∀ c ∈ ([] : List Char), isBlank c = true :=
  List.forall_mem_nil _

/-- No blanks at all. -/
def Blanks.none : Blanks := ⟨[], blank_of_mem_nil⟩

/-- Blanks behind blanks. -/
def Blanks.append (b c : Blanks) : Blanks :=
  ⟨b.chars ++ c.chars, List.forall_mem_append.2 ⟨b.blank, c.blank⟩⟩

/-- Something with blanks before and behind it. -/
structure Padded (α : Type) where
  before : Blanks
  inner : α
  after : Blanks

/-- Four digits in base sixteen. -/
structure FourHex where
  digits : List Char
  four : digits.length = 4
  hex : ∀ c ∈ digits, (hexValue? c).isSome = true

/-- The number that the digits stand for. -/
def FourHex.value (h : FourHex) : Nat :=
  h.digits.foldl (fun n c => n * 16 + (hexValue? c).getD 0) 0

/-- A part of a text: a character as it is, a letter behind a backslash, or the number of a UTF-16
unit. -/
inductive Letter where
  | plain (c : Char) (notQuote : c ≠ '"') (notSlash : c ≠ '\\') (notControl : ¬ c.toNat < 0x20)
  | short (c : Char) (known : (shortEscape? c).isSome = true)
  | unit (h : FourHex)

namespace Letter

def spelled : Letter → List Char
  | plain c .. => [c]
  | short c _ => ['\\', c]
  | unit h => '\\' :: 'u' :: h.digits

/-- The trailing surrogate that a letter stands for, if it does for one. -/
def trailing? : Letter → Option Nat
  | unit h => if isTrailing h.value then some h.value else none
  | plain .. | short .. => none

end Letter

/-- The text that some letters say. Surrogates must come in pairs. -/
def textOf? : List Letter → Option (List Char)
  | [] => some []
  | .plain c .. :: rest => (textOf? rest).map (c :: ·)
  | .short c _ :: rest => (shortEscape? c).bind fun d => (textOf? rest).map (d :: ·)
  | .unit h :: rest =>
    if isTrailing h.value then none
    else if isLeading h.value then
      match rest with
      | [] => none
      | next :: rest =>
        next.trailing?.bind fun unit => (textOf? rest).map (joinSurrogates h.value unit :: ·)
    else (textOf? rest).map (Char.ofNat h.value :: ·)

/-- The letters of a text between quotation marks. -/
def quotedLetters (letters : List Letter) : List Char :=
  '"' :: (letters.flatMap Letter.spelled ++ ['"'])

/-- Letters between quotation marks, taken apart. -/
theorem quotedLetters_append (letters : List Letter) (rest : List Char) :
    quotedLetters letters ++ rest = '"' :: (letters.flatMap Letter.spelled ++ '"' :: rest) := by
  rw [quotedLetters, List.cons_append, List.append_assoc, List.singleton_append]

/-- Some digits, one at least. -/
structure Digits where
  chars : List Char
  some : chars ≠ []
  digit : ∀ c ∈ chars, c.isDigit = true

/-- A number: its sign, the digits before and behind the point, and an exponent. A zero before the
point stands alone. -/
structure Numeral where
  negative : Bool
  whole : Digits
  lone : whole.chars = ['0'] ∨ whole.chars.head? ≠ some '0'
  part : Option Digits
  /-- Whether the mark is a capital, the sign if there is one, and the digits. -/
  exponent : Option (Bool × Option Bool × Digits)

namespace Numeral

def spelledPart : Option Digits → List Char
  | none => []
  | some ds => '.' :: ds.chars

def spelledSign : Option Bool → List Char
  | none => []
  | some plus => [if plus then '+' else '-']

def spelledExponent : Option (Bool × Option Bool × Digits) → List Char
  | none => []
  | some (capital, sign, ds) => (if capital then 'E' else 'e') :: (spelledSign sign ++ ds.chars)

/-- The number without its sign. -/
def unsigned (n : Numeral) : List Char :=
  n.whole.chars ++ (spelledPart n.part ++ spelledExponent n.exponent)

def spelled (n : Numeral) : List Char := if n.negative then '-' :: n.unsigned else n.unsigned

/-- A number begins with a digit behind its sign. -/
theorem unsigned_head (n : Numeral) : ∃ c more, n.unsigned = c :: more ∧ c.isDigit = true := by
  cases hchars : n.whole.chars with
  | nil => exact absurd hchars n.whole.some
  | cons c more =>
      refine ⟨c, _, by rw [unsigned, hchars, List.cons_append], ?_⟩
      exact n.whole.digit c (by rw [hchars]; exact List.mem_cons_self)

end Numeral

/-- A digit is no character that is not one. -/
theorem ne_of_isDigit {c d : Char} (hc : c.isDigit = true) (hd : d.isDigit = false) : c ≠ d := by
  rintro rfl
  exact absurd (hc.symm.trans hd) (by decide)

/-- A digit is no blank. -/
theorem isBlank_of_isDigit {c : Char} (h : c.isDigit = true) : isBlank c = false := by
  simp [isBlank, ne_of_isDigit h]

/-- A value with all that is up to its spelling. -/
inductive Value where
  | null
  | boolean (value : Bool)
  | number (n : Numeral)
  | text (letters : List Letter)
  | list (elements : List (Padded Value)) (inside : Blanks)
  | record (members : List (Padded (List Letter) × Padded Value)) (inside : Blanks)

/-- The key and the value of a member, each with its blanks. -/
abbrev Member := Padded (List Letter) × Padded Value

namespace Value

mutual

def spelled : Value → List Char
  | null => ['n', 'u', 'l', 'l']
  | boolean value => if value then ['t', 'r', 'u', 'e'] else ['f', 'a', 'l', 's', 'e']
  | number n => n.spelled
  | text letters => quotedLetters letters
  | list elements inside => '[' :: (spelledList true elements ++ (inside.chars ++ [']']))
  | record members inside => '\x7b' :: (spelledRecord true members ++ (inside.chars ++ ['\x7d']))

def spelledList (first : Bool) : List (Padded Value) → List Char
  | [] => []
  | ⟨before, v, after⟩ :: rest =>
    comma first ++ (before.chars ++ (spelled v ++ (after.chars ++ spelledList false rest)))

def spelledRecord (first : Bool) : List Member → List Char
  | [] => []
  | (key, ⟨before, v, after⟩) :: rest =>
    comma first ++ (key.before.chars ++ (quotedLetters key.inner ++ (key.after.chars ++
      ':' :: (before.chars ++ (spelled v ++ (after.chars ++ spelledRecord false rest))))))

end

/-- A value begins with a mark of its own, which is no blank and ends no list. -/
theorem spelled_head (v : Value) :
    ∃ c more, v.spelled = c :: more ∧ isBlank c = false ∧ c ≠ ']' := by
  cases v with
  | null => exact ⟨'n', _, rfl, by decide, by decide⟩
  | boolean value =>
      cases value with
      | true => exact ⟨'t', _, rfl, by decide, by decide⟩
      | false => exact ⟨'f', _, rfl, by decide, by decide⟩
  | number n =>
      obtain ⟨c, more, hc, hdigit⟩ := n.unsigned_head
      rw [spelled, Numeral.spelled]
      split
      · exact ⟨'-', _, rfl, by decide, by decide⟩
      · exact ⟨c, more, hc, isBlank_of_isDigit hdigit, ne_of_isDigit hdigit (by decide)⟩
  | text letters => exact ⟨'"', _, rfl, by decide, by decide⟩
  | list elements inside => exact ⟨'[', _, rfl, by decide, by decide⟩
  | record members inside => exact ⟨'\x7b', _, rfl, by decide, by decide⟩

/-- The blanks before a value are passed over, and no others. -/
theorem skipBlanks_spelled (before : Blanks) (v : Value) (rest : List Char) :
    skipBlanks (before.chars ++ (v.spelled ++ rest)) = v.spelled ++ rest := by
  obtain ⟨c, more, hc, hblank, -⟩ := v.spelled_head
  rw [hc, List.cons_append, skipBlanks_before before.blank hblank]

/-- A value is spelled with one character at least. -/
theorem length_spelled_pos (v : Value) : 0 < v.spelled.length := by
  obtain ⟨c, more, hc, -⟩ := v.spelled_head
  rw [hc]
  exact Nat.succ_pos _

/-- The elements of a list are no more than the characters that spell them. -/
theorem length_le_spelledList (first : Bool) (es : List (Padded Value)) :
    es.length ≤ (spelledList first es).length := by
  induction es generalizing first with
  | nil => exact Nat.le_refl 0
  | cons e es ih =>
      have hlength := e.inner.length_spelled_pos
      have hes := ih false
      simp only [spelledList, List.length_append, List.length_cons]
      omega

/-- The members of a record are no more than the characters that spell them. -/
theorem length_le_spelledRecord (first : Bool) (ms : List Member) :
    ms.length ≤ (spelledRecord first ms).length := by
  induction ms generalizing first with
  | nil => exact Nat.le_refl 0
  | cons m ms ih =>
      have hms := ih false
      simp only [spelledRecord, List.length_append, List.length_cons]
      omega

/-- An element is spelled within its list. -/
theorem length_spelled_le_spelledList {e : Padded Value} {es : List (Padded Value)} (first : Bool)
    (h : e ∈ es) : e.inner.spelled.length ≤ (spelledList first es).length := by
  induction es generalizing first with
  | nil => exact absurd h List.not_mem_nil
  | cons e' es ih =>
      simp only [spelledList, List.length_append]
      rcases List.mem_cons.1 h with rfl | h
      · omega
      · have hes := ih false h
        omega

/-- The value of a member is spelled within its record. -/
theorem length_spelled_le_spelledRecord {m : Member} {ms : List Member} (first : Bool)
    (h : m ∈ ms) :
    m.2.inner.spelled.length ≤ (spelledRecord first ms).length := by
  induction ms generalizing first with
  | nil => exact absurd h List.not_mem_nil
  | cons m' ms ih =>
      obtain ⟨key, value⟩ := m'
      simp only [spelledRecord, List.length_append, List.length_cons]
      rcases List.mem_cons.1 h with rfl | h
      · simp only
        omega
      · have hms := ih false h
        omega

end Value

/-! ## Reading the letters of a text -/

/-- Four digits in base sixteen are read as their number. -/
theorem fourHex_digits (h : FourHex) (rest : List Char) :
    fourHex (h.digits ++ rest) = .ok (h.value, rest) := by
  obtain ⟨digits, hfour, hhex⟩ := h
  match digits, hfour with
  | [a, b, c, d], _ =>
      obtain ⟨_, ha⟩ := Option.isSome_iff_exists.1 (hhex a (by simp))
      obtain ⟨_, hb⟩ := Option.isSome_iff_exists.1 (hhex b (by simp))
      obtain ⟨_, hc⟩ := Option.isSome_iff_exists.1 (hhex c (by simp))
      obtain ⟨_, hd⟩ := Option.isSome_iff_exists.1 (hhex d (by simp))
      simp [fourHex, FourHex.value, ha, hb, hc, hd]

/-- An escape that cannot be read ends the reading. -/
theorem text_fault {e : Fault} {s : List Char} (h : escape s = .error e) (done : List Char) :
    text done ('\\' :: s) = .error e := by
  rw [text, if_neg (by decide), if_pos rfl]
  split
  · next e' he => exact congrArg _ (Except.error.inj (he.symm.trans h))
  · next he => simp [h] at he

/-- A letter behind a backslash is read as the character it stands for. -/
theorem escape_short {c d : Char} (h : shortEscape? c = some d) (rest : List Char) :
    escape (c :: rest) = .ok (d, rest) := by
  have hunit : c ≠ 'u' := by
    rintro rfl
    simp [shortEscape?] at h
  rw [escape, if_neg hunit, h]

/-- The number of a unit is read as its character, or as a surrogate that needs another. -/
theorem escape_unit (h : FourHex) (rest : List Char) :
    escape ('u' :: (h.digits ++ rest)) =
      if isTrailing h.value then .error .malformed
      else if isLeading h.value then trailing h.value rest
      else .ok (Char.ofNat h.value, rest) := by
  rw [escape, if_pos rfl, fourHex_digits]

/-- Behind a leading surrogate stands a trailing one, or nothing that can be read. -/
theorem trailing_letter (leading : Nat) (next : Letter) (rest : List Char) :
    (trailing leading (next.spelled ++ rest)).toOption =
      next.trailing?.map fun unit => (joinSurrogates leading unit, rest) := by
  cases next with
  | plain c _ hslash _ =>
      rw [Letter.spelled, List.singleton_append, trailing.eq_def]
      simp only [if_neg hslash]
      rfl
  | short c known =>
      have hunit : c ≠ 'u' := by
        rintro rfl
        simp [shortEscape?] at known
      simp only [Letter.spelled, List.cons_append, trailing, if_true, if_neg hunit]
      rfl
  | unit h =>
      simp only [Letter.spelled, List.cons_append, trailing, if_true, fourHex_digits,
        Letter.trailing?]
      split <;> rfl

/-- No surrogate follows where a text ends. -/
theorem trailing_close (leading : Nat) (rest : List Char) :
    (trailing leading ('"' :: rest)).toOption = none := by
  rw [trailing.eq_def]
  rfl

/-- Behind a backslash the reading goes on with what the escape says. -/
theorem toOption_text_escape (done s : List Char) :
    (text done ('\\' :: s)).toOption =
      (escape s).toOption.bind fun read => (text (read.1 :: done) read.2).toOption := by
  cases h : escape s with
  | error e =>
      rw [text_fault h]
      rfl
  | ok read =>
      rw [text_escape h]
      rfl

/-- A text that goes on with the number of a unit goes on behind its character, or behind the pair.
-/
theorem toOption_text_unit (h : FourHex) (done s : List Char) :
    (text done (Letter.spelled (.unit h) ++ s)).toOption =
      if isTrailing h.value then none
      else if isLeading h.value then
        (trailing h.value s).toOption.bind fun read => (text (read.1 :: done) read.2).toOption
      else (text (Char.ofNat h.value :: done) s).toOption := by
  rw [Letter.spelled, List.cons_append, List.cons_append, toOption_text_escape, escape_unit]
  split
  · rfl
  · split <;> rfl

/-- A text between quotation marks is read as what its letters say. -/
theorem toOption_text_letters (letters : List Letter) (done rest : List Char) :
    (text done (letters.flatMap Letter.spelled ++ '"' :: rest)).toOption =
      (textOf? letters).map fun cs => (String.ofList (done.reverse ++ cs), rest) := by
  fun_induction textOf? letters generalizing done with
  | case1 =>
      rw [List.flatMap_nil, List.nil_append, text_close, Option.map_some, List.append_nil]
      rfl
  | case2 c hquote hslash hcontrol letters ih =>
      rw [List.flatMap_cons, Letter.spelled, List.append_assoc, List.singleton_append,
        text_plain hquote hslash hcontrol, ih]
      simp [Function.comp_def]
  | case3 c known letters ih =>
      obtain ⟨d, hd⟩ := Option.isSome_iff_exists.1 known
      rw [List.flatMap_cons, Letter.spelled, List.append_assoc, List.cons_append,
        List.singleton_append, text_escape (escape_short hd _), ih]
      simp [hd, Function.comp_def]
  | case4 h letters htrailing =>
      rw [List.flatMap_cons, List.append_assoc, toOption_text_unit, if_pos htrailing]
      rfl
  | case5 h htrailing hleading =>
      rw [List.flatMap_cons, List.append_assoc, toOption_text_unit, if_neg htrailing,
        if_pos hleading, List.flatMap_nil, List.nil_append, trailing_close]
      rfl
  | case6 h htrailing hleading next letters ih =>
      -- A leading surrogate takes the next letter with it, whatever that is.
      rw [List.flatMap_cons, List.append_assoc, toOption_text_unit, if_neg htrailing,
        if_pos hleading, List.flatMap_cons, List.append_assoc, trailing_letter]
      cases next.trailing? <;> simp [ih, Function.comp_def]
  | case7 h letters htrailing hleading ih =>
      rw [List.flatMap_cons, List.append_assoc, toOption_text_unit, if_neg htrailing,
        if_neg hleading, ih]
      simp [Function.comp_def]

/-- A text is passed over behind what a backslash stands before. -/
theorem passText_escape {s rest : List Char} (h : passEscape s = .ok rest) :
    passText ('\\' :: s) = passText rest := by
  rw [passText, if_neg (by decide), if_pos rfl]
  split
  · next e he => simp [h] at he
  · next rest' he =>
      obtain rfl := Except.ok.inj (he.symm.trans h)
      rfl

/-- Whatever the letters of a text are, it is passed over. -/
theorem passText_letters (letters : List Letter) (rest : List Char) :
    passText (letters.flatMap Letter.spelled ++ '"' :: rest) = .ok rest := by
  induction letters with
  | nil =>
      rw [List.flatMap_nil, List.nil_append, passText]
      rfl
  | cons letter letters ih =>
      rw [List.flatMap_cons, List.append_assoc]
      cases letter with
      | plain c hquote hslash hcontrol =>
          have hval : ¬ c.val < 0x20 := hcontrol
          rw [Letter.spelled, List.singleton_append, passText, if_neg hquote, if_neg hslash,
            if_neg hval, ih]
      | short c known =>
          have hunit : c ≠ 'u' := by
            rintro rfl
            simp [shortEscape?] at known
          have hpass (s : List Char) : passEscape (c :: s) = .ok s := by
            rw [passEscape, if_neg hunit, if_pos known]
          exact (passText_escape (hpass _)).trans ih
      | unit h =>
          have hpass (s : List Char) : passEscape ('u' :: (h.digits ++ s)) = .ok s := by
            rw [passEscape, if_pos rfl, fourHex_digits]
          simp only [Letter.spelled, List.cons_append]
          exact (passText_escape (hpass _)).trans ih

end Pinpoint.Json
