import Pinpoint.Marker

/-!
# Reading quoted literals back

`Quoted.read?` reads a literal of the target dialect: a backslash before an apostrophe or another
backslash stands for that second character, and the first apostrophe without one closes the
literal. Writing escapes apostrophes only, so a backslash of the text itself may be taken for an
escape. `read_quote_iff` says for which texts it never is, and for which the literal still ends
where it was meant to.
-/

namespace Pinpoint.Quoted

/-- Whether a backslash before `c` is an escape. -/
def isEscapable (c : Char) : Bool := c == apostrophe || c == '\\'

/-- Puts a character before the text that was read. -/
def prepend (c : Char) (found : List Char × List Char) : List Char × List Char :=
  (c :: found.1, found.2)

/-- Reads a literal behind its opening apostrophe: its text, and what follows the closing one. -/
def readBody? : List Char → Option (List Char × List Char)
  | [] => none
  | [c] => if c = apostrophe then some ([], []) else none
  | c :: d :: rest =>
    if c = apostrophe then some ([], d :: rest)
    else if c = '\\' ∧ isEscapable d then (readBody? rest).map (prepend d)
    else (readBody? (d :: rest)).map (prepend c)

/-- Reads a literal: its text, and what follows it. -/
def read? : List Char → Option (List Char × List Char)
  | [] => none
  | c :: rest => if c = apostrophe then readBody? rest else none

/-- No backslash of the text stands before an apostrophe, before a backslash or at the end. -/
def LoneBackslashes (text : List Char) : Prop :=
  ∀ before after, text = before ++ '\\' :: after → ∃ c ∈ after.head?, isEscapable c = false

/-- Backslashes stand in pairs wherever a row of them leads up to an apostrophe or to the end. -/
def PairedBackslashes (text : List Char) : Prop :=
  ∀ before n after, text = before ++ (List.replicate n '\\' ++ after) →
    before.getLast? ≠ some '\\' → (∀ c ∈ after.head?, c = apostrophe) → n % 2 = 0

/-- What the literal of a text stands for, if it ends where it was meant to. -/
def denoted? : List Char → Option (List Char)
  | [] => some []
  | [c] => if c = '\\' then none else some [c]
  | c :: d :: rest =>
    if c = '\\' ∧ d = '\\' then (denoted? rest).map ('\\' :: ·)
    else if c = '\\' ∧ d = apostrophe then none
    else (denoted? (d :: rest)).map (c :: ·)

/-- Neither an apostrophe nor a backslash: a backslash before it is no escape. -/
theorem not_escapable {c : Char} (hq : c ≠ apostrophe) (hc : c ≠ '\\') :
    isEscapable c = false := by
  simp [isEscapable, hq, hc]

/-! ## The reader on a written literal -/

/-- Reading takes at least the closing apostrophe. -/
theorem read_body_length_lt {source text rest : List Char}
    (h : readBody? source = some (text, rest)) : rest.length < source.length := by
  fun_induction readBody? source generalizing text rest with
  | case1 => simp at h
  | case2 =>
      cases h
      simp
  | case3 c hc => simp at h
  | case4 d more =>
      cases h
      simp
  | case5 c d more hc hd ih =>
      obtain ⟨⟨found, left⟩, hfound, heq⟩ := Option.map_eq_some_iff.1 h
      cases heq
      have := ih hfound
      simp only [List.length_cons]
      omega
  | case6 c d more hc hd ih =>
      obtain ⟨⟨found, left⟩, hfound, heq⟩ := Option.map_eq_some_iff.1 h
      cases heq
      have := ih hfound
      simp only [List.length_cons] at this ⊢
      omega

/-- A character that is neither delimiter nor backslash is read as itself. -/
theorem read_body_plain {c : Char} (hc : isEscapable c = false) (source : List Char) :
    readBody? (c :: source) = (readBody? source).map (prepend c) := by
  simp only [isEscapable, Bool.or_eq_false_iff, beq_eq_false_iff_ne, ne_eq] at hc
  cases source with
  | nil => simp [readBody?, hc]
  | cons d source => simp [readBody?, hc]

/-- An escape is read as its second character. -/
theorem read_body_escape {c : Char} (hc : isEscapable c = true) (source : List Char) :
    readBody? ('\\' :: c :: source) = (readBody? source).map (prepend c) := by
  have hslash : ¬ '\\' = apostrophe := by decide
  simp [readBody?, hslash, hc]

/-- A backslash before any other character is read as itself. -/
theorem read_body_backslash {c : Char} (hc : isEscapable c = false) (source : List Char) :
    readBody? ('\\' :: c :: source) = (readBody? (c :: source)).map (prepend '\\') := by
  have hslash : ¬ '\\' = apostrophe := by decide
  simp [readBody?, hslash, hc]

/-- The first apostrophe that is not escaped closes the literal. -/
theorem read_body_close (source : List Char) :
    readBody? (apostrophe :: source) = some ([], source) := by
  cases source <;> simp [readBody?]

/-- What was read with a character put before it is known from what was read. -/
theorem map_prepend_eq_some {o : Option (List Char × List Char)} {c : Char}
    {found rest : List Char} :
    o.map (prepend c) = some (found, rest) ↔
      ∃ text, o = some (text, rest) ∧ c :: text = found := by
  simp [prepend]

/-- An apostrophe is escaped by a backslash. -/
theorem escape_apostrophe (text : List Char) :
    escape (apostrophe :: text) = '\\' :: apostrophe :: escape text := by
  simp [escape]

/-- Any other character stands for itself. -/
theorem escape_cons_of_ne {c : Char} (hc : c ≠ apostrophe) (text : List Char) :
    escape (c :: text) = c :: escape text := by
  simp [escape, hc]

/-- Behind a character that begins no escape, the rest of the text is read on its own. -/
theorem read_body_escape_cons {c : Char} (hc : c ≠ '\\') (text rest : List Char) :
    readBody? (escape (c :: text) ++ rest) = (readBody? (escape text ++ rest)).map (prepend c) := by
  by_cases hq : c = apostrophe
  · subst hq
    rw [escape_apostrophe, List.cons_append, List.cons_append, read_body_escape (by decide)]
  · rw [escape_cons_of_ne hq, List.cons_append, read_body_plain (not_escapable hq hc)]

/-- A written literal is closed by its own last apostrophe exactly if `denoted?` has an answer, and
that answer is what it then stands for. -/
theorem read_body_eq_some_iff (text rest found : List Char) :
    readBody? (escape text ++ apostrophe :: rest) = some (found, rest) ↔
      denoted? text = some found := by
  have hslash : '\\' ≠ apostrophe := by decide
  fun_induction denoted? text generalizing found with
  | case1 => simp [escape, read_body_close, eq_comm]
  | case2 =>
      -- The backslash takes the closing apostrophe, so reading goes on into `rest`.
      rw [escape_cons_of_ne hslash, List.cons_append, escape, List.nil_append,
        read_body_escape (by decide), map_prepend_eq_some]
      refine iff_of_false ?_ (by simp)
      rintro ⟨more, hmore, -⟩
      exact Nat.lt_irrefl _ (read_body_length_lt hmore)
  | case3 c hc =>
      rw [read_body_escape_cons hc]
      simp [escape, read_body_close, prepend, eq_comm]
  | case4 c d more h ih =>
      obtain ⟨rfl, rfl⟩ := h
      rw [escape_cons_of_ne hslash, escape_cons_of_ne hslash, List.cons_append, List.cons_append,
        read_body_escape (by decide), map_prepend_eq_some]
      simp [ih]
  | case5 c d more _ h =>
      -- The backslash takes the one that was to escape the apostrophe.
      obtain ⟨rfl, rfl⟩ := h
      rw [escape_cons_of_ne hslash, escape_apostrophe]
      simp only [List.cons_append]
      rw [read_body_escape (by decide), read_body_close, Option.map_some]
      refine iff_of_false (fun heq => ?_) (by simp)
      have := congrArg (fun found => (found.map (·.2.length)).getD 0) heq
      simp [prepend] at this
      omega
  | case6 c d more h h' ih =>
      by_cases hc : c = '\\'
      · subst hc
        have hne : d ≠ '\\' := fun hd => h ⟨rfl, hd⟩
        have hq : d ≠ apostrophe := fun hd => h' ⟨rfl, hd⟩
        rw [escape_cons_of_ne hslash, escape_cons_of_ne hq, List.cons_append, List.cons_append,
          read_body_backslash (not_escapable hq hne), map_prepend_eq_some,
          ← List.cons_append, ← escape_cons_of_ne hq]
        simp [ih]
      · rw [read_body_escape_cons hc, map_prepend_eq_some]
        simp [ih]

/-! ## What a written literal stands for -/

/-- A literal stands for no more characters than its text has. -/
theorem denoted_length_le {text found : List Char} (h : denoted? text = some found) :
    found.length ≤ text.length := by
  fun_induction denoted? text generalizing found with
  | case1 => simp_all
  | case2 => simp at h
  | case3 => simp_all
  | case4 c d more _ ih =>
      obtain ⟨rest, hrest, rfl⟩ := Option.map_eq_some_iff.1 h
      have := ih hrest
      simp only [List.length_cons]
      omega
  | case5 => simp at h
  | case6 c d more _ _ ih =>
      obtain ⟨rest, hrest, rfl⟩ := Option.map_eq_some_iff.1 h
      have := ih hrest
      simp only [List.length_cons] at this ⊢
      omega

/-- The empty text has no backslash. -/
theorem lone_backslashes_nil : LoneBackslashes [] := by
  intro before after h
  simp at h

/-- Behind a first character backslashes are lone as before, and one at the start must be followed
by a character that it does not escape. -/
theorem lone_backslashes_cons (c : Char) (text : List Char) :
    LoneBackslashes (c :: text) ↔
      (c = '\\' → ∃ d ∈ text.head?, isEscapable d = false) ∧ LoneBackslashes text := by
  constructor
  · intro h
    constructor
    · rintro rfl
      exact h [] text rfl
    · intro before after heq
      exact h (c :: before) after (by simp [heq])
  · rintro ⟨hfirst, hrest⟩ before after heq
    cases before with
    | nil =>
        obtain ⟨rfl, rfl⟩ := List.cons.inj heq
        exact hfirst rfl
    | cons b before => exact hrest before after (List.cons.inj heq).2

/-- A literal stands for its own text exactly if no backslash of the text is taken for an escape. -/
theorem denoted_eq_self_iff (text : List Char) :
    denoted? text = some text ↔ LoneBackslashes text := by
  fun_induction denoted? text with
  | case1 => simp [lone_backslashes_nil]
  | case2 => simp [lone_backslashes_cons]
  | case3 c hc => simp [lone_backslashes_cons, lone_backslashes_nil, hc]
  | case4 c d more h ih =>
      obtain ⟨rfl, rfl⟩ := h
      refine iff_of_false (fun heq => ?_) (by simp [lone_backslashes_cons, isEscapable])
      obtain ⟨rest, hrest, heq⟩ := Option.map_eq_some_iff.1 heq
      have hle := denoted_length_le hrest
      have := congrArg List.length heq
      simp at this
      omega
  | case5 c d more _ h =>
      obtain ⟨rfl, rfl⟩ := h
      simp [lone_backslashes_cons, isEscapable]
  | case6 c d more h h' ih =>
      have hd : c = '\\' → isEscapable d = false := fun hc =>
        not_escapable (fun hd => h' ⟨hc, hd⟩) fun hd => h ⟨hc, hd⟩
      rw [lone_backslashes_cons c, Option.map_eq_some_iff]
      simpa [ih] using fun _ => hd

/-! ## Where a written literal ends -/

/-- The empty text has no row of backslashes. -/
theorem paired_backslashes_nil : PairedBackslashes [] := by
  intro before n after h _ _
  simp at h
  simp [h]

/-- A character other than a backslash starts no row of them. -/
theorem paired_backslashes_cons_of_ne {c : Char} (hc : c ≠ '\\') (text : List Char) :
    PairedBackslashes (c :: text) ↔ PairedBackslashes text := by
  constructor
  · intro h before n after heq hlast hafter
    refine h (c :: before) n after (by simp [heq]) ?_ hafter
    cases before with
    | nil => simpa using hc
    | cons b before => simpa using hlast
  · intro h before n after heq hlast hafter
    cases before with
    | nil =>
        cases n with
        | zero => rfl
        | succ n => exact absurd (List.cons.inj heq).1 hc
    | cons b before =>
        refine h before n after (List.cons.inj heq).2 ?_ hafter
        cases before with
        | nil => simp
        | cons b' before => simpa using hlast

/-- Two backslashes at the head of a text are a pair of the row that they begin. -/
theorem paired_backslashes_pair (text : List Char) :
    PairedBackslashes ('\\' :: '\\' :: text) ↔ PairedBackslashes text := by
  constructor
  · intro h before n after heq hlast hafter
    cases before with
    | nil =>
        have := h [] (n + 2) after (by simp [heq, List.replicate_succ]) (by simp) hafter
        omega
    | cons b before =>
        exact h ('\\' :: '\\' :: b :: before) n after (by simp [heq]) (by simpa using hlast) hafter
  · intro h before n after heq hlast hafter
    match before, n with
    | [], 0 => rfl
    | [], 1 =>
        obtain rfl : '\\' :: text = after := (List.cons.inj heq).2
        exact absurd (hafter '\\' (by simp)) (by decide)
    | [], n + 2 =>
        have := h [] n after (List.cons.inj (List.cons.inj heq).2).2 (by simp) hafter
        omega
    | [b], n =>
        obtain ⟨rfl, -⟩ := List.cons.inj heq
        exact absurd rfl hlast
    | b :: b' :: before, n =>
        refine h before n after (List.cons.inj (List.cons.inj heq).2).2 ?_ hafter
        cases before with
        | nil => simp
        | cons b'' before => simpa using hlast

/-- A single backslash is a row that leads up to the character behind it. -/
theorem paired_backslashes_single {d : Char} (hq : d ≠ apostrophe) (hd : d ≠ '\\')
    (text : List Char) :
    PairedBackslashes ('\\' :: d :: text) ↔ PairedBackslashes (d :: text) := by
  constructor
  · intro h before n after heq hlast hafter
    cases before with
    | nil =>
        cases n with
        | zero => rfl
        | succ n => exact absurd (List.cons.inj heq).1 hd
    | cons b before =>
        exact h ('\\' :: b :: before) n after (by simp [heq]) (by simpa using hlast) hafter
  · intro h before n after heq hlast hafter
    match before, n with
    | [], 0 => rfl
    | [], 1 =>
        obtain rfl : d :: text = after := (List.cons.inj heq).2
        exact absurd (hafter d (by simp)) hq
    | [], n + 2 => exact absurd (List.cons.inj (List.cons.inj heq).2).1 hd
    | [b], n =>
        obtain ⟨rfl, -⟩ := List.cons.inj heq
        exact absurd rfl hlast
    | b :: b' :: before, n =>
        exact h (b' :: before) n after (List.cons.inj heq).2 (by simpa using hlast) hafter

/-- A literal ends where it was meant to exactly if backslashes stand in pairs before apostrophes
and at its end. -/
theorem denoted_isSome_iff (text : List Char) :
    (denoted? text).isSome ↔ PairedBackslashes text := by
  fun_induction denoted? text with
  | case1 => simp [paired_backslashes_nil]
  | case2 =>
      refine iff_of_false (by simp) fun h => ?_
      exact absurd (h [] 1 [] rfl (by simp) (by simp)) (by decide)
  | case3 c hc => simp [paired_backslashes_cons_of_ne hc, paired_backslashes_nil]
  | case4 c d more h ih =>
      obtain ⟨rfl, rfl⟩ := h
      simpa [paired_backslashes_pair] using ih
  | case5 c d more _ h =>
      obtain ⟨rfl, rfl⟩ := h
      refine iff_of_false (by simp) fun h => ?_
      exact absurd (h [] 1 (apostrophe :: more) rfl (by simp) (by simp)) (by decide)
  | case6 c d more h h' ih =>
      rw [Option.isSome_map, ih]
      by_cases hc : c = '\\'
      · subst hc
        exact (paired_backslashes_single (fun hd => h' ⟨rfl, hd⟩) (fun hd => h ⟨rfl, hd⟩) _).symm
      · rw [paired_backslashes_cons_of_ne hc]

/-! ## Main statement -/

/-- Whatever follows it, the literal of a text ends where it was meant to exactly if the text
denotes something, and this is what is read. -/
theorem read_quote_append (text rest found : List Char) :
    read? (quote text ++ rest) = some (found, rest) ↔ denoted? text = some found := by
  rw [← read_body_eq_some_iff text rest]
  simp [read?, quote]

/-- Whatever follows a written literal, reading ends behind its last character and answers the
text exactly if no backslash of the text stands before an apostrophe, before a backslash or at the
end. It ends there at all exactly if backslashes stand in pairs before apostrophes and at the
end. -/
theorem read_quote_iff (text rest : List Char) :
    (read? (quote text ++ rest) = some (text, rest) ↔ LoneBackslashes text) ∧
      ((∃ found, read? (quote text ++ rest) = some (found, rest)) ↔ PairedBackslashes text) := by
  constructor
  · rw [read_quote_append, denoted_eq_self_iff]
  · rw [← denoted_isSome_iff, Option.isSome_iff_exists]
    exact exists_congr fun found => read_quote_append text rest found

/-- The literal of a backslash does not end, and that of a backslash before an apostrophe ends
early. -/
theorem read_quote_backslash :
    read? (quote ['\\']) = none ∧
      read? (quote ['\\', apostrophe]) = some (['\\'], [apostrophe]) := by
  constructor
  · decide
  · decide

end Pinpoint.Quoted
