import Pinpoint.Marker

/-!
# Substitution with a lookbehind

`Marker.substitute` is the plain reading of what pinning does to a text: at each place it looks at
the byte before, and at what begins there. It goes on character by character, and past a marker it
goes on behind the token. `substitute_induction` is how properties of it are proved: a text is
empty, begins with a marker that is replaced, or begins with a character that is kept.
-/

namespace Pinpoint.Marker

/-- The bytes that a marker may not follow. -/
def isExcluded (b : UInt8) : Bool :=
  [':', '$', '>', '\\', '_'].any (·.toUInt8 == b) ||
    (0x30 ≤ b && b ≤ 0x39) || (0x41 ≤ b && b ≤ 0x5A) || (0x61 ≤ b && b ≤ 0x7A) || 0x7F ≤ b

/-- Whether the byte before a place allows a marker there; at the start of a text there is none. -/
def mayFollow (before : Option Char) : Bool :=
  !before.any fun c => (String.utf8EncodeChar c).getLast?.any isExcluded

/-- The blanks that may stand before a token. -/
def blanks : List Char := ['\t', '\n', '\x0B', '\x0C', '\r', ' ']

/-- What follows the marker, if the text begins with some blanks and then its token. -/
def behind? (m : Marker) (text : List Char) : Option (List Char) :=
  let rest := text.dropWhile blanks.contains
  if m.token.isPrefixOf rest then some (rest.drop m.token.length) else none

/-- What takes the place of each marker, if anything does. -/
abbrev Placing := Marker → Option (List Char)

/-- The placing of one marker alone. -/
def only (m : Marker) (literal : List Char) : Placing := fun m' =>
  if m' = m then some literal else none

/-- The marker to replace where the text begins, behind the character `before`: with its literal,
and with what follows it. -/
def ahead? (place : Placing) (before : Option Char) (text : List Char) :
    Option (Marker × List Char × List Char) :=
  if mayFollow before then
    [directory, file].findSome? fun m => do
      let literal ← place m
      let rest ← m.behind? text
      some (m, literal, rest)
  else none

namespace Pinned

/-- Puts kept text before a text after substitution. -/
def after (kept : List Char) (p : Pinned) : Pinned := ⟨kept ++ p.text, p.count⟩

/-- Puts a placed literal before a text after substitution. -/
def afterLiteral (literal : List Char) (p : Pinned) : Pinned := ⟨literal ++ p.text, p.count + 1⟩

/-- Text that is kept stands before what is made of the rest. -/
@[simp] theorem after_text (kept : List Char) (p : Pinned) :
    (p.after kept).text = kept ++ p.text := rfl

/-- Keeping text places no literal. -/
@[simp] theorem after_count (kept : List Char) (p : Pinned) : (p.after kept).count = p.count := rfl

/-- A placed literal stands before what is made of the rest. -/
@[simp] theorem afterLiteral_text (literal : List Char) (p : Pinned) :
    (p.afterLiteral literal).text = literal ++ p.text := rfl

/-- A placed literal counts for one. -/
@[simp] theorem afterLiteral_count (literal : List Char) (p : Pinned) :
    (p.afterLiteral literal).count = p.count + 1 := rfl

/-- Nothing kept changes nothing. -/
@[simp] theorem after_nil (p : Pinned) : p.after [] = p := rfl

/-- Two kept texts are kept as one. -/
@[simp] theorem after_after (kept more : List Char) (p : Pinned) :
    (p.after more).after kept = p.after (kept ++ more) := by
  simp [after]

end Pinned

/-- What follows a marker is shorter than the text that the marker begins. -/
theorem behind_length_lt {m : Marker} {text rest : List Char} (h : m.behind? text = some rest) :
    rest.length < text.length := by
  simp only [behind?, Option.ite_none_right_eq_some] at h
  obtain ⟨hstart, h⟩ := h
  have htoken : 0 < m.token.length := by cases m <;> decide
  have hle := (List.isPrefixOf_iff_prefix.1 hstart).length_le
  have hdrop := (List.dropWhile_suffix (l := text) blanks.contains).length_le
  cases h
  simp only [List.length_drop]
  omega

/-- A marker ahead may follow what stands before it, has a literal, and begins the text. -/
theorem ahead_eq_some {place : Placing} {before : Option Char} {m : Marker}
    {text literal rest : List Char} (h : ahead? place before text = some (m, literal, rest)) :
    mayFollow before ∧ place m = some literal ∧ m.behind? text = some rest := by
  simp only [ahead?, Option.ite_none_right_eq_some] at h
  obtain ⟨hbefore, h⟩ := h
  obtain ⟨m', -, h⟩ := List.exists_of_findSome?_eq_some h
  simp only [Option.bind_eq_bind, Option.bind_eq_some_iff, Option.some.injEq] at h
  obtain ⟨literal', hplace, rest', hbehind, heq⟩ := h
  cases heq
  exact ⟨hbefore, hplace, hbehind⟩

/-- Places literals in a text that stands behind the character `before` of a whole text. The
character before each place is always that of the whole text as it was given. -/
def substitute (place : Placing) (before : Option Char) : List Char → Pinned
  | [] => ⟨[], 0⟩
  | c :: rest =>
    match _h : ahead? place before (c :: rest) with
    | some (m, literal, left) => (substitute place m.token.getLast? left).afterLiteral literal
    | none => (substitute place (some c) rest).after [c]
termination_by text => text.length
decreasing_by
  · exact behind_length_lt (ahead_eq_some _h).2.2
  · simp

/-! ## Characters -/

/-- The bytes of ASCII are excluded just as their characters bind. -/
theorem excluded_ascii : ∀ n < 0x80, isExcluded (UInt8.ofNat n) = binds (Char.ofNat n) := by
  decide +kernel

/-- A byte that continues a longer character is excluded. -/
theorem excluded_following (n : Nat) : isExcluded (UInt8.ofNat (n % 0x40) + 0x80) = true := by
  have h : 0x7F ≤ UInt8.ofNat (n % 0x40) + 0x80 := by
    rw [UInt8.le_iff_toNat_le]
    simp
    omega
  simp only [isExcluded, h, decide_true, Bool.or_true]

/-- The byte that decides is the last one of the character before. -/
theorem excluded_last_byte (c : Char) :
    (String.utf8EncodeChar c).getLast?.any isExcluded = binds c := by
  by_cases hc : c.toNat ≤ 0x7F
  · have h := excluded_ascii c.toNat (by omega)
    rw [Char.ofNat_toNat] at h
    simpa [String.utf8EncodeChar, hc] using h
  · -- Beyond ASCII every character binds, and its last byte is one that follows another.
    have hbinds : binds c = true := by
      have : 0x7F ≤ c.val := by
        rw [UInt32.le_iff_toNat_le]
        simp
        omega
      simp [binds, this]
    rw [hbinds]
    simp only [String.utf8EncodeChar, Char.toNat_val, hc, ite_false]
    split
    · simp [excluded_following]
    · split <;> simp [excluded_following]

/-- The byte before a place allows a marker there exactly if the character before it binds nothing.
-/
theorem mayFollow_eq_isFree (before : Option Char) : mayFollow before = isFree before := by
  cases before with
  | none => rfl
  | some c => simp [mayFollow, isFree, excluded_last_byte]

/-- The blanks that are listed are the six blanks of a marker. -/
theorem blanks_contains (c : Char) : blanks.contains c = isBlank c := by
  rw [Bool.eq_iff_iff]
  constructor
  · intro h
    simp only [blanks, List.contains_eq_mem, List.mem_cons, List.not_mem_nil, or_false,
      decide_eq_true_eq] at h
    obtain rfl | rfl | rfl | rfl | rfl | rfl := h <;> rfl
  · intro h
    simp only [isBlank, Bool.or_eq_true, beq_iff_eq, Bool.and_eq_true, decide_eq_true_eq,
      UInt32.le_iff_toNat_le, Char.toNat_val] at h
    obtain rfl | ⟨hlow, hhigh⟩ := h
    · rfl
    · have hcode : c.toNat = 9 ∨ c.toNat = 10 ∨ c.toNat = 11 ∨ c.toNat = 12 ∨ c.toNat = 13 := by
        simp at hlow hhigh
        omega
      rw [← Char.ofNat_toNat c]
      obtain h | h | h | h | h := hcode <;> rw [h] <;> rfl

/-- A text of blanks. -/
def AllBlank (run : List Char) : Prop := ∀ b ∈ run, isBlank b = true

/-- A text of characters that bind what follows. -/
def AllBinding (word : List Char) : Prop := ∀ c ∈ word, binds c = true

/-- A blank binds nothing. -/
theorem binds_of_isBlank {c : Char} (h : isBlank c = true) : binds c = false := by
  rw [← blanks_contains] at h
  simp only [blanks, List.contains_eq_mem, List.mem_cons, List.not_mem_nil, or_false,
    decide_eq_true_eq] at h
  obtain rfl | rfl | rfl | rfl | rfl | rfl := h <;> rfl

/-- A marker is free behind a blank. -/
theorem isFree_of_isBlank {c : Char} (h : isBlank c = true) : isFree (some c) = true := by
  simp [isFree, binds_of_isBlank h]

/-- No marker is free behind a character that binds. -/
theorem not_isFree_of_binds {c : Char} (h : binds c = true) : isFree (some c) = false := by
  simp [isFree, h]

/-- A token binds what follows it, and each of its characters does. -/
theorem token_all_binding (m : Marker) : AllBinding m.token := by
  cases m <;> simp [AllBinding, token] <;> decide

/-- A token begins with a low line. -/
theorem token_eq_cons (m : Marker) : ∃ tail, m.token = '_' :: tail := by
  cases m <;> exact ⟨_, rfl⟩

/-- A text that a token begins is not empty. -/
theorem token_append_ne_nil (m : Marker) (more : List Char) : m.token ++ more ≠ [] := by
  obtain ⟨tail, htail⟩ := token_eq_cons m
  simp [htail]

/-- A token ends with a low line. -/
theorem token_getLast (m : Marker) : m.token.getLast? = some '_' := by
  cases m <;> rfl

/-- Neither token begins the other. -/
theorem token_append_inj {m m' : Marker} {rest rest' : List Char}
    (h : m.token ++ rest = m'.token ++ rest') : m = m' ∧ rest = rest' := by
  cases m <;> cases m' <;> simp_all [token]

/-- A token with a word behind it begins another token with its rest exactly if the tokens are one
and the word begins the rest. -/
theorem token_append_prefix_iff {m m' : Marker} {word rest : List Char} :
    m.token ++ word <+: m'.token ++ rest ↔ m = m' ∧ word <+: rest := by
  constructor
  · rintro ⟨left, hleft⟩
    rw [List.append_assoc] at hleft
    obtain ⟨rfl, rfl⟩ := token_append_inj hleft
    exact ⟨rfl, List.prefix_append _ _⟩
  · rintro ⟨rfl, h⟩
    exact (List.prefix_append_right_inj _).2 h

/-! ## Markers at the head of a text -/

/-- The run of blanks before a token ends where the token begins. -/
theorem dropWhile_run_token {run : List Char} (hrun : AllBlank run) (m : Marker)
    (rest : List Char) :
    (run ++ (m.token ++ rest)).dropWhile blanks.contains = m.token ++ rest := by
  obtain ⟨tail, htail⟩ := token_eq_cons m
  rw [List.dropWhile_append_of_pos fun b hb => by rw [blanks_contains, hrun b hb], htail,
    List.cons_append, List.dropWhile_cons_of_neg (by decide)]

/-- A marker is ahead exactly if the text is a run of blanks, its token and what follows. -/
theorem behind_eq_some_iff {m : Marker} {text rest : List Char} :
    m.behind? text = some rest ↔ ∃ run, AllBlank run ∧ text = run ++ (m.token ++ rest) := by
  constructor
  · intro h
    simp only [behind?, Option.ite_none_right_eq_some, List.isPrefixOf_iff_prefix] at h
    obtain ⟨⟨left, hleft⟩, h⟩ := h
    rw [← hleft, List.drop_left, Option.some.injEq] at h
    refine ⟨text.takeWhile blanks.contains, fun b hb => ?_, ?_⟩
    · rw [← blanks_contains]
      exact (List.all_eq_true.1 List.all_takeWhile) b hb
    · rw [← h, hleft, List.takeWhile_append_dropWhile]
  · rintro ⟨run, hrun, rfl⟩
    simp [behind?, dropWhile_run_token hrun]

/-- At most one marker is ahead. -/
theorem behind_unique {m m' : Marker} {text rest rest' : List Char}
    (h : m.behind? text = some rest) (h' : m'.behind? text = some rest') :
    m = m' ∧ rest = rest' := by
  obtain ⟨run, hrun, rfl⟩ := behind_eq_some_iff.1 h
  obtain ⟨run', hrun', heq⟩ := behind_eq_some_iff.1 h'
  have := congrArg (List.dropWhile blanks.contains) heq
  rw [dropWhile_run_token hrun, dropWhile_run_token hrun'] at this
  exact token_append_inj this

/-- Blanks before a text change nothing in what is ahead. -/
theorem behind_append_run {run : List Char} (hrun : AllBlank run) (m : Marker)
    (text : List Char) : m.behind? (run ++ text) = m.behind? text := by
  simp only [behind?]
  rw [List.dropWhile_append_of_pos fun b hb => by rw [blanks_contains, hrun b hb]]

/-- No marker is ahead at the end of a text. -/
theorem behind_nil (m : Marker) : m.behind? [] = none := by
  cases m <;> rfl

/-- A blank before a text changes nothing in what is ahead. -/
theorem behind_cons_blank {c : Char} (hc : isBlank c = true) (m : Marker) (text : List Char) :
    m.behind? (c :: text) = m.behind? text :=
  @behind_append_run [c] (by simp [AllBlank, hc]) m text

/-- A character that is not blank is where a token ahead would have to begin. -/
theorem behind_cons_eq_none_iff {c : Char} (hc : ¬ isBlank c = true) (m : Marker)
    (text : List Char) : m.behind? (c :: text) = none ↔ ¬ m.token <+: c :: text := by
  rw [behind?, List.dropWhile_cons_of_neg (by rwa [blanks_contains])]
  simp

/-- Behind a run of blanks, a marker is ahead with what follows its token. -/
theorem behind_run_token {run : List Char} (hrun : AllBlank run) (m : Marker)
    (left : List Char) : m.behind? (run ++ (m.token ++ left)) = some left :=
  behind_eq_some_iff.2 ⟨run, hrun, rfl⟩

/-- Without blanks before it, a marker is ahead with what follows its token. -/
theorem behind_token (m : Marker) (left : List Char) : m.behind? (m.token ++ left) = some left :=
  behind_eq_some_iff.2 ⟨[], by simp [AllBlank], rfl⟩

/-- A token that begins a text is ahead there. -/
theorem behind_of_token {m : Marker} {text : List Char} (h : m.token <+: text) :
    ∃ left, m.behind? text = some left := by
  obtain ⟨left, rfl⟩ := h
  exact ⟨left, behind_token m left⟩

/-- Nothing is replaced where the text begins. -/
def Keeps (place : Placing) (before : Option Char) (text : List Char) : Prop :=
  isFree before = true → ∀ m rest, m.behind? text = some rest → place m = none

/-- Where nothing is replaced, no token begins that is replaced elsewhere. -/
theorem Keeps.token_not_ahead {place : Placing} {before : Option Char} {text : List Char}
    (hkeep : Keeps place before text) (hfree : isFree before = true) {m : Marker}
    (hplace : place m ≠ none) (more : List Char) : ¬ m.token ++ more <+: text := by
  intro hstart
  obtain ⟨left, hleft⟩ := behind_of_token ((List.prefix_append _ _).trans hstart)
  exact hplace (hkeep hfree m left hleft)

/-- No marker is replaced here exactly if every one is bound, has no literal, or is not ahead. -/
theorem ahead_eq_none_iff {place : Placing} {before : Option Char} {text : List Char} :
    ahead? place before text = none ↔ Keeps place before text := by
  have hall : ∀ m : Marker, m ∈ [directory, file] := fun m => by cases m <;> simp
  simp only [ahead?, mayFollow_eq_isFree, Keeps]
  cases isFree before with
  | false => simp
  | true =>
      simp only [ite_true, List.findSome?_eq_none_iff, true_implies, hall]
      refine forall_congr' fun m => ?_
      cases hplace : place m <;> simp

/-- A free marker that is ahead and has a literal is the one to replace. -/
theorem ahead_eq_some_of {place : Placing} {before : Option Char} {m : Marker}
    {text literal rest : List Char} (hfree : isFree before = true)
    (hplace : place m = some literal) (hbehind : m.behind? text = some rest) :
    ahead? place before text = some (m, literal, rest) := by
  cases h : ahead? place before text with
  | none =>
      have := ahead_eq_none_iff.1 h hfree m rest hbehind
      simp [this] at hplace
  | some found =>
      obtain ⟨m', literal', rest'⟩ := found
      obtain ⟨-, hplace', hbehind'⟩ := ahead_eq_some h
      obtain ⟨rfl, rfl⟩ := behind_unique hbehind hbehind'
      rw [hplace] at hplace'
      cases hplace'
      rfl

/-- Where a text begins, either nothing is replaced or some marker is. -/
theorem keeps_or_placed (place : Placing) (before : Option Char) (text : List Char) :
    Keeps place before text ∨ ∃ m literal rest,
      isFree before = true ∧ place m = some literal ∧ m.behind? text = some rest := by
  cases h : ahead? place before text with
  | none => exact .inl (ahead_eq_none_iff.1 h)
  | some found =>
      obtain ⟨m, literal, rest⟩ := found
      obtain ⟨hbefore, hplace, hbehind⟩ := ahead_eq_some h
      exact .inr ⟨m, literal, rest, mayFollow_eq_isFree before ▸ hbefore, hplace, hbehind⟩

/-! ## The two steps of a substitution -/

/-- An empty text stays empty. -/
theorem substitute_nil (place : Placing) (before : Option Char) :
    substitute place before [] = ⟨[], 0⟩ := by
  rw [substitute]

/-- A character that begins no replaced marker is kept. -/
theorem substitute_keep {place : Placing} {before : Option Char} {c : Char} {rest : List Char}
    (h : Keeps place before (c :: rest)) :
    substitute place before (c :: rest) = (substitute place (some c) rest).after [c] := by
  rw [substitute]
  split
  · next hahead => simp [ahead_eq_none_iff.2 h] at hahead
  · rfl

/-- A free marker that is ahead gives way to its literal, and what follows stands behind a low line.
-/
theorem substitute_place {place : Placing} {before : Option Char} {m : Marker}
    {literal text rest : List Char} (hfree : isFree before = true)
    (hplace : place m = some literal) (hbehind : m.behind? text = some rest) :
    substitute place before text =
      (substitute place (some '_') rest).afterLiteral literal := by
  cases text with
  | nil => exact absurd (behind_length_lt hbehind) (by simp)
  | cons c text =>
      rw [substitute]
      split
      · next m' literal' rest' hahead =>
          rw [ahead_eq_some_of hfree hplace hbehind] at hahead
          cases hahead
          rw [token_getLast]
      · next hahead => simp [ahead_eq_some_of hfree hplace hbehind] at hahead

/-- A text is empty, begins with a marker that is replaced, or begins with a character that is
kept. -/
@[elab_as_elim]
theorem substitute_induction (place : Placing) {motive : Option Char → List Char → Prop}
    (nil : ∀ before, motive before [])
    (placed : ∀ before m literal text rest, isFree before = true → place m = some literal →
      m.behind? text = some rest → motive (some '_') rest → motive before text)
    (kept : ∀ before c rest, Keeps place before (c :: rest) → motive (some c) rest →
      motive before (c :: rest))
    (before : Option Char) (text : List Char) : motive before text := by
  fun_induction substitute place before text with
  | case1 before => exact nil before
  | case2 before c rest m literal left h ih =>
      obtain ⟨hbefore, hplace, hbehind⟩ := ahead_eq_some h
      rw [token_getLast] at ih
      exact placed before m literal _ left (mayFollow_eq_isFree before ▸ hbefore) hplace hbehind ih
  | case3 before c rest h ih => exact kept before c rest (ahead_eq_none_iff.1 h) ih

/-! ## Texts that are kept -/

/-- Where nothing is placed, nothing is changed. -/
theorem substitute_text_of_count_zero {place : Placing} {before : Option Char} {text : List Char}
    (h : (substitute place before text).count = 0) :
    (substitute place before text).text = text := by
  induction before, text using substitute_induction place with
  | nil before => rw [substitute_nil]
  | placed before m literal text rest hfree hplace hbehind ih =>
      rw [substitute_place hfree hplace hbehind] at h
      simp at h
  | kept before c rest hkeep ih =>
      rw [substitute_keep hkeep] at h ⊢
      simpa using ih h

/-- The character before what follows `word`, if `word` stands behind `before`. -/
def lastOf (before : Option Char) : List Char → Option Char
  | [] => before
  | c :: word => lastOf (some c) word

/-- The character before what follows two words is told word by word. -/
@[simp] theorem lastOf_append (before : Option Char) (word more : List Char) :
    lastOf before (word ++ more) = lastOf (lastOf before word) more := by
  induction word generalizing before with
  | nil => rfl
  | cons c word ih => exact ih (some c)

/-- The character before what follows a word is the last one of the word, if it has any. -/
theorem lastOf_eq_getLast (before : Option Char) (word : List Char) :
    lastOf before word = word.getLast?.or before := by
  induction word generalizing before with
  | nil => rfl
  | cons c word ih =>
      rw [lastOf, ih, List.getLast?_cons]
      cases word.getLast? <;> rfl

/-- What follows a token stands behind a low line. -/
@[simp] theorem lastOf_token (before : Option Char) (m : Marker) :
    lastOf before m.token = some '_' := by
  cases m <;> rfl

/-- Behind a character that binds, text that binds throughout is kept. -/
theorem substitute_binding {place : Placing} {before : Option Char} {word : List Char}
    (hbefore : isFree before = false) (hword : AllBinding word) (rest : List Char) :
    substitute place before (word ++ rest) =
      (substitute place (lastOf before word) rest).after word := by
  induction word generalizing before with
  | nil => rfl
  | cons c word ih =>
      have hc : isFree (some c) = false := not_isFree_of_binds (hword c (by simp))
      rw [List.cons_append, substitute_keep fun hfree => by simp [hbefore] at hfree,
        ih hc fun d hd => hword d (by simp [hd]), Pinned.after_after]
      rfl

/-- Behind its first character a token is bound, and kept. -/
theorem substitute_token_tail {m : Marker} {tail : List Char} (htail : m.token = '_' :: tail)
    (place : Placing) (rest : List Char) :
    substitute place (some '_') (tail ++ rest) =
      (substitute place (some '_') rest).after tail := by
  have hbinding : AllBinding tail := fun c hc => token_all_binding m c (by simp [htail, hc])
  have hlast : lastOf (some '_') tail = some '_' := by
    have := lastOf_token none m
    rwa [htail] at this
  rw [substitute_binding (by decide) hbinding, hlast]

/-- Blanks are kept if no marker behind them is replaced. -/
theorem substitute_run {place : Placing} {before : Option Char} {run rest : List Char}
    (hrun : AllBlank run) (hrest : ∀ m left, m.behind? rest = some left → place m = none) :
    substitute place before (run ++ rest) =
      (substitute place (lastOf before run) rest).after run := by
  induction run generalizing before with
  | nil => rfl
  | cons b run ih =>
      have hkeep : Keeps place before (b :: (run ++ rest)) := fun _ m left hbehind =>
        hrest m left (by rwa [← List.cons_append, behind_append_run hrun] at hbehind)
      rw [List.cons_append, substitute_keep hkeep, ih fun d hd => hrun d (by simp [hd]),
        Pinned.after_after]
      rfl

/-- A token that is not replaced is kept with the blanks before it. -/
theorem substitute_unplaced {place : Placing} {before : Option Char} {run : List Char} {m : Marker}
    (hrun : AllBlank run) (hplace : place m = none) (rest : List Char) :
    substitute place before (run ++ (m.token ++ rest)) =
      (substitute place (some '_') rest).after (run ++ m.token) := by
  have hahead : ∀ m' left, m'.behind? (m.token ++ rest) = some left → place m' = none := by
    intro m' left h
    obtain ⟨rfl, -⟩ := behind_unique h (behind_token m rest)
    exact hplace
  obtain ⟨tail, htail⟩ := token_eq_cons m
  -- Only the underscore at its head could be replaced.
  rw [substitute_run hrun hahead]
  rw [htail, List.cons_append] at hahead ⊢
  rw [substitute_keep fun _ => hahead, substitute_token_tail htail]
  simp

end Pinpoint.Marker
