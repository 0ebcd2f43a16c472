import Pinpoint.Json.Reader
import Pinpoint.Proofs.JsonSpacing

/-!
# Reading what was written

Each reader is taken to a written part with something behind it: it answers the part and leaves what
is behind. The blanks before a part may be any, so one lemma serves every way of writing.
`text_quoted` is the one about texts: each escape is undone by the character that it stands for.
-/

namespace Pinpoint.Json

variable {blanks s rest : List Char}

/-! ## Blanks -/

/-- Blanks before a text are skipped. -/
theorem skipBlanks_append (h : ∀ c ∈ blanks, isBlank c = true) (s : List Char) :
    skipBlanks (blanks ++ s) = skipBlanks s :=
  List.dropWhile_append_of_pos h

/-- Nothing is skipped before a character that is no blank. -/
theorem skipBlanks_cons {c : Char} (h : isBlank c = false) (s : List Char) :
    skipBlanks (c :: s) = c :: s := by
  rw [skipBlanks, List.dropWhile_cons, if_neg (by simp [h])]

/-- Blanks before a part are passed over. -/
theorem skipBlanks_before {c : Char} (hblanks : ∀ c ∈ blanks, isBlank c = true)
    (h : isBlank c = false) (s : List Char) : skipBlanks (blanks ++ c :: s) = c :: s :=
  (skipBlanks_append hblanks _).trans (skipBlanks_cons h s)

/-- A text of blanks is skipped as a whole. -/
theorem skipBlanks_all (hblanks : ∀ c ∈ blanks, isBlank c = true) : skipBlanks blanks = [] := by
  have h := skipBlanks_append hblanks []
  rw [List.append_nil] at h
  exact h

/-! ## Texts -/

/-- A text that is read ends at its quotation mark. -/
theorem text_close (done rest : List Char) :
    text done ('"' :: rest) = .ok (String.ofList done.reverse, rest) := by
  rw [text]
  rfl

/-- A character behind a backslash is read as what it stands for. -/
theorem text_escape {c : Char} (h : escape s = .ok (c, rest)) (done : List Char) :
    text done ('\\' :: s) = text (c :: done) rest := by
  rw [text, if_neg (by decide), if_pos rfl]
  split
  · next e he => simp [h] at he
  · next c' rest' he =>
      obtain ⟨rfl, rfl⟩ := Prod.mk.inj (Except.ok.inj (he.symm.trans h))
      rfl

/-- Any other character of a text is read as it is. -/
theorem text_plain {c : Char} (hquote : c ≠ '"') (hslash : c ≠ '\\') (hcontrol : ¬ c.toNat < 0x20)
    (done rest : List Char) : text done (c :: rest) = text (c :: done) rest := by
  have hval : ¬ c.val < 0x20 := hcontrol
  rw [text, if_neg hquote, if_neg hslash, if_neg hval]

/-- A digit in base sixteen is read as the number that it was written for. -/
theorem hexValue_hexDigit : ∀ n < 16, hexValue? (hexDigit n) = some n := by
  decide

/-- A control is read back from its number in base sixteen. -/
theorem escape_control {c : Char} (h : c.toNat < 0x20) (rest : List Char) :
    escape ('u' :: '0' :: '0' :: hexDigit (c.toNat / 16) :: hexDigit (c.toNat % 16) :: rest) =
      .ok (c, rest) := by
  have hzero : hexValue? '0' = some 0 := by decide
  have hhigh := hexValue_hexDigit (c.toNat / 16) (by omega)
  have hlow := hexValue_hexDigit (c.toNat % 16) (Nat.mod_lt _ (by decide))
  have hnumber : ((0 * 16 + 0) * 16 + c.toNat / 16) * 16 + c.toNat % 16 = c.toNat := by omega
  have hhex : fourHex ('0' :: '0' :: hexDigit (c.toNat / 16) :: hexDigit (c.toNat % 16) :: rest) =
      .ok (c.toNat, rest) := by
    simp only [fourHex, hzero, hhigh, hlow, hnumber]
  -- A control is no surrogate, so its number is the whole of the escape.
  have htrailing : isTrailing c.toNat = false := by
    simp [isTrailing]
    omega
  have hleading : isLeading c.toNat = false := by
    simp [isLeading]
    omega
  simp [escape, hhex, htrailing, hleading, Char.ofNat_toNat]

/-- A written character is read back, whichever way it is written. -/
theorem text_writeChar (c : Char) (done rest : List Char) :
    text done (writeChar c ++ rest) = text (c :: done) rest := by
  fun_cases writeChar c with
  | case1 h | case2 _ h | case3 _ _ h | case4 _ _ _ h | case5 _ _ _ _ h | case6 _ _ _ _ _ h
  | case7 _ _ _ _ _ _ h =>
      exact text_escape (by simp [escape, shortEscape?, h]) done
  | case8 _ _ _ _ _ _ _ hcontrol => exact text_escape (escape_control hcontrol rest) done
  | case9 hquote hslash _ _ _ _ _ hcontrol => exact text_plain hquote hslash hcontrol done rest

/-- Characters that are written one by one are read back. -/
theorem text_flatMap_writeChar (cs done rest : List Char) :
    text done (cs.flatMap writeChar ++ rest) = text (cs.reverse ++ done) rest := by
  induction cs generalizing done with
  | nil => rfl
  | cons c cs ih =>
      rw [List.flatMap_cons, List.append_assoc, text_writeChar, ih, List.reverse_cons,
        List.append_assoc, List.singleton_append]

/-- A text is read back behind its opening quotation mark, up to the closing one. -/
theorem text_quoted (value : String) (rest : List Char) :
    text [] (value.toList.flatMap writeChar ++ '"' :: rest) = .ok (value, rest) := by
  rw [text_flatMap_writeChar, text_close, List.append_nil, List.reverse_reverse,
    String.ofList_toList]

/-- A text between quotation marks is its written characters and the marks. -/
theorem quoted_append (value : String) (rest : List Char) :
    quoted value ++ rest = '"' :: (value.toList.flatMap writeChar ++ '"' :: rest) := by
  simp [quoted]

/-! ## Values -/

/-- A written text is read back. -/
theorem string_quoted (hblanks : ∀ c ∈ blanks, isBlank c = true) (value : String)
    (rest : List Char) : string (blanks ++ (quoted value ++ rest)) = .ok (value, rest) := by
  rw [string, quoted_append, skipBlanks_before hblanks (by decide)]
  exact text_quoted value rest

/-- A word is read where it stands. -/
theorem word_append (w rest : List Char) : word w (w ++ rest) = .ok rest := by
  induction w with
  | nil => rfl
  | cons c w ih => simpa [word] using ih

/-- A written truth value is read back, whatever the spacing. -/
theorem boolean_spaced (sp : Spacing) (level : Nat) (hblanks : ∀ c ∈ blanks, isBlank c = true)
    (value : Bool) (rest : List Char) :
    boolean (blanks ++ (Document.spaced sp level (.boolean value) ++ rest)) =
      .ok (value, rest) := by
  cases value with
  | true =>
      have hword : word ['r', 'u', 'e'] ('r' :: 'u' :: 'e' :: rest) = .ok rest := word_append _ rest
      simp only [Document.spaced, if_true, List.cons_append, List.nil_append]
      rw [boolean, skipBlanks_before hblanks (by decide)]
      simp only [if_true, hword]
      rfl
  | false =>
      have hword : word ['a', 'l', 's', 'e'] ('a' :: 'l' :: 's' :: 'e' :: rest) = .ok rest :=
        word_append _ rest
      simp only [Document.spaced, Bool.false_eq_true, if_false, List.cons_append, List.nil_append]
      rw [boolean, skipBlanks_before hblanks (by decide)]
      simp only [Char.reduceEq, if_false, if_true, hword]
      rfl

/-- A choice is read from its name. -/
theorem choice_quoted {α : Type} {choices : List (String × α)} {name : String} {a : α}
    (h : choices.lookup name = some a) (depth : Nat)
    (hblanks : ∀ c ∈ blanks, isBlank c = true) (rest : List Char) :
    choice depth choices (blanks ++ (quoted name ++ rest)) = .ok (a, rest) := by
  rw [choice, quoted_append, skipBlanks_before hblanks (by decide)]
  simp only [if_true, text_quoted, choose, h, bind, Except.bind, pure, Except.pure]

/-! ## Lists -/

section

variable {α : Type} {item : Reader α} {size : Nat} {first : Bool} {done : List α} {c : Char}

/-- The next element is found behind its comma and its blanks. -/
theorem nextElement_some (hblank : isBlank c = false) (hend : c ≠ ']') (first : Bool)
    (hblanks : ∀ c ∈ blanks, isBlank c = true) (s : List Char) :
    nextElement first (Document.comma first ++ (blanks ++ c :: s)) = .ok (some (c :: s)) := by
  cases first with
  | true =>
      rw [nextElement, Document.comma, if_pos rfl, List.nil_append,
        skipBlanks_before hblanks hblank]
      simp [hend]
  | false =>
      rw [nextElement, Document.comma, if_neg (by simp), List.singleton_append,
        skipBlanks_cons (by decide)]
      simp [skipBlanks_before hblanks hblank, hend]

/-- A list whose end comes next has no next element. -/
theorem nextElement_none (first : Bool) (hblanks : ∀ c ∈ blanks, isBlank c = true)
    (s : List Char) : nextElement first (blanks ++ ']' :: s) = .ok none := by
  rw [nextElement, skipBlanks_before hblanks (by decide)]
  rfl

/-- The end of a list is read where it stands. -/
theorem closeList_end (hblanks : ∀ c ∈ blanks, isBlank c = true) (s : List Char) :
    closeList (blanks ++ ']' :: s) = .ok s := by
  rw [closeList, skipBlanks_before hblanks (by decide)]
  rfl

/-- The elements of a list are those read so far where the list ends. -/
theorem elements_end (hblanks : ∀ c ∈ blanks, isBlank c = true) (s : List Char) :
    elements item (size + 1) first done (blanks ++ ']' :: s) = .ok (done.reverse, s) := by
  rw [elements, nextElement_none first hblanks]
  simp only [bind, Except.bind, closeList_end hblanks, pure, Except.pure]

/-- An element that can be read goes to the others. -/
theorem elements_next {a : α} (hblank : isBlank c = false) (hend : c ≠ ']')
    (hblanks : ∀ c ∈ blanks, isBlank c = true) (h : item (c :: s) = .ok (a, rest)) :
    elements item (size + 1) first done (Document.comma first ++ (blanks ++ c :: s)) =
      elements item size false (a :: done) rest := by
  rw [elements, nextElement_some hblank hend first hblanks]
  simp only [bind, Except.bind, h]

/-- An element that cannot be read ends the reading. -/
theorem elements_fault {e : Fault} (hblank : isBlank c = false) (hend : c ≠ ']')
    (hblanks : ∀ c ∈ blanks, isBlank c = true) (h : item (c :: s) = .error e) :
    elements item (size + 1) first done (Document.comma first ++ (blanks ++ c :: s)) =
      .error e := by
  rw [elements, nextElement_some hblank hend first hblanks]
  simp only [bind, Except.bind, h]

/-- A list is opened where one may still be opened. -/
theorem list_open (size depth : Nat) (item : Reader α)
    (hblanks : ∀ c ∈ blanks, isBlank c = true) (s : List Char) :
    list size depth item (blanks ++ '[' :: s) =
      if depth = 0 then .error .malformed else elements item size true [] s := by
  rw [list, skipBlanks_before hblanks (by decide)]
  rfl

end

/-! ## Records -/

section

variable {σ : Type} {member : σ → String → Reader σ} {size : Nat} {first : Bool} {state : σ}

/-- The next key of a record is read behind its comma. -/
theorem nextKey_some (first : Bool) (hblanks : ∀ c ∈ blanks, isBlank c = true) (key : String)
    (rest : List Char) :
    nextKey first (Document.comma first ++ (blanks ++ (quoted key ++ rest))) =
      .ok (some key, rest) := by
  rw [quoted_append]
  cases first with
  | true =>
      rw [nextKey, Document.comma, if_pos rfl, List.nil_append,
        skipBlanks_before hblanks (by decide)]
      simp [text_quoted, bind, Except.bind, pure, Except.pure]
  | false =>
      have hquote : isBlank '"' = false := by decide
      rw [nextKey, Document.comma, if_neg (by simp), List.singleton_append,
        skipBlanks_cons (by decide)]
      simp [skipBlanks_before hblanks hquote, text_quoted, bind, Except.bind, pure, Except.pure]

/-- A record whose end comes next has no next key. -/
theorem nextKey_none (first : Bool) (hblanks : ∀ c ∈ blanks, isBlank c = true) (s : List Char) :
    nextKey first (blanks ++ '\x7d' :: s) = .ok (none, s) := by
  rw [nextKey, skipBlanks_before hblanks (by decide)]
  rfl

/-- The members of a record are those read so far where the record ends. -/
theorem members_end (hblanks : ∀ c ∈ blanks, isBlank c = true) (s : List Char) :
    members member (size + 1) first state (blanks ++ '\x7d' :: s) = .ok (state, s) := by
  rw [members, nextKey_none first hblanks]
  rfl

/-- A member that can be read, behind its key, goes to the others. -/
theorem members_next {key : String} {state' : σ} (hblanks : ∀ c ∈ blanks, isBlank c = true)
    (h : member state key s = .ok (state', rest)) :
    members member (size + 1) first state (Document.comma first ++ (blanks ++ (quoted key ++ s))) =
      members member size false state' rest := by
  rw [members, nextKey_some first hblanks]
  simp only [bind, Except.bind, h]

/-- A member that cannot be read ends the reading. -/
theorem members_fault {key : String} {e : Fault} (hblanks : ∀ c ∈ blanks, isBlank c = true)
    (h : member state key s = .error e) :
    members member (size + 1) first state (Document.comma first ++ (blanks ++ (quoted key ++ s))) =
      .error e := by
  rw [members, nextKey_some first hblanks]
  simp only [bind, Except.bind, h]

/-- A field is read behind its colon. -/
theorem field_next {α : Type} (name : String) (item : Reader α) (s : List Char) :
    field name none item (':' :: s) = (item s).map fun read => (some read.1, read.2) := by
  rw [field, colon, skipBlanks_cons (by decide)]
  show (item s).bind (fun read => .ok (some read.1, read.2)) = _
  cases item s <;> rfl

end

end Pinpoint.Json
