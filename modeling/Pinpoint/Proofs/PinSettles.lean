import Mathlib.Logic.Function.Iterate
import Pinpoint.Proofs.PinTwice
import Pinpoint.Proofs.Separators

/-!
# Pinning settles

Pinning again and again comes to an end, for each pass takes away an occurrence of a token for every
literal that it places, and brings none. `occurrences` lists where tokens begin, also where they run
into each other. `occurrences_substitute` traces each occurrence after a pass to one before it, and
`pin_settles` draws the conclusion: after as many rounds as there are occurrences nothing changes
any more, and the tokens that are left are bound.
-/

namespace Pinpoint.Marker

/-! ## Occurrences of tokens -/

/-- The token that begins a text, if there is one, and what follows it. -/
def begins? (text : List Char) : Option (Marker × List Char) :=
  [directory, file].findSome? fun m =>
    if m.token.isPrefixOf text then some (m, text.drop m.token.length) else none

/-- The places of a text where a token begins, in order: which token it is, and what follows it. -/
def occurrences : List Char → List (Marker × List Char)
  | [] => []
  | c :: rest => (begins? (c :: rest)).toList ++ occurrences rest

/-- A text begins with a token exactly if it is this token and what follows it. -/
theorem begins_eq_some_iff {text rest : List Char} {m : Marker} :
    begins? text = some (m, rest) ↔ text = m.token ++ rest := by
  constructor
  · intro h
    obtain ⟨m', -, h⟩ := List.exists_of_findSome?_eq_some h
    simp only [Option.ite_none_right_eq_some, Option.some.injEq, Prod.mk.injEq] at h
    obtain ⟨hstart, rfl, rfl⟩ := h
    exact (List.prefix_iff_eq_append.1 (List.isPrefixOf_iff_prefix.1 hstart)).symm
  · rintro rfl
    cases m with
    | directory => simp [begins?, List.isPrefixOf_iff_prefix]
    | file => simp [begins?, token]

/-- A text begins with no token exactly if neither is a prefix of it. -/
theorem begins_eq_none_iff {text : List Char} :
    begins? text = none ↔ ∀ m : Marker, ¬ m.token <+: text := by
  constructor
  · rintro h m ⟨rest, hrest⟩
    simp [begins_eq_some_iff.2 hrest.symm] at h
  · intro h
    cases hbegins : begins? text with
    | none => rfl
    | some found => exact absurd ⟨_, (begins_eq_some_iff.1 hbegins).symm⟩ (h found.1)

/-- A place is listed exactly if a token stands there with the rest of the text behind it. -/
theorem mem_occurrences {m : Marker} {rest text : List Char} :
    (m, rest) ∈ occurrences text ↔ m.token ++ rest <:+ text := by
  induction text with
  | nil => simp [occurrences, token_append_ne_nil m rest]
  | cons c text ih =>
      rw [occurrences, List.mem_append, ih, List.suffix_cons_iff, Option.mem_toList,
        begins_eq_some_iff, eq_comm]

/-- The places where tokens begin behind a word are places of the whole text. -/
theorem occurrences_append (word text : List Char) :
    occurrences text <:+ occurrences (word ++ text) := by
  induction word with
  | nil => exact List.suffix_rfl
  | cons c word ih => exact ih.trans (List.suffix_append _ _)

/-- A token is one occurrence more than there are behind it, at least. -/
theorem length_occurrences_token (m : Marker) (rest : List Char) :
    (occurrences rest).length < (occurrences (m.token ++ rest)).length := by
  obtain ⟨tail, htail⟩ := token_eq_cons m
  have hbegins : begins? ('_' :: (tail ++ rest)) = some (m, rest) :=
    begins_eq_some_iff.2 (by rw [htail, List.cons_append])
  have hrest := (occurrences_append tail rest).length_le
  rw [htail, List.cons_append, occurrences, hbegins, List.length_append]
  simp only [Option.toList_some, List.length_singleton]
  omega

/-- A word that holds no token brings none, with a character behind it that is in no token. -/
theorem occurrences_word {word : List Char} (hword : ∀ m : Marker, ¬ m.token <:+: word) {c : Char}
    (hc : ∀ m : Marker, c ∉ m.token) (text : List Char) :
    occurrences (word ++ c :: text) = occurrences text := by
  have hbegins : ∀ word' : List Char, word' <:+ word → begins? (word' ++ c :: text) = none :=
    fun word' hsuffix => begins_eq_none_iff.2 fun m hstart =>
      hword m ((prefix_separator (hc m) hstart).isInfix.trans hsuffix.isInfix)
  induction word with
  | nil =>
      have hhead := hbegins [] List.suffix_rfl
      rw [List.nil_append] at hhead ⊢
      rw [occurrences, hhead]
      rfl
  | cons d word ih =>
      have hmore : word <:+ d :: word := List.suffix_cons d word
      have hhead := hbegins (d :: word) List.suffix_rfl
      rw [List.cons_append] at hhead ⊢
      rw [occurrences, hhead]
      exact ih (fun m h => hword m (h.trans hmore.isInfix))
        fun word' hsuffix => hbegins word' (hsuffix.trans hmore)

/-- A literal that holds no token brings none, and none runs over its end. -/
theorem occurrences_literal {literal : List Char} (hliteral : Inert literal) (text : List Char) :
    occurrences (literal ++ text) = occurrences text := by
  obtain ⟨inner, rfl⟩ := hliteral.delimited
  have hcut : Quoted.apostrophe :: (inner ++ [Quoted.apostrophe]) ++ text =
      (Quoted.apostrophe :: inner) ++ Quoted.apostrophe :: text := by simp
  have hinner :
      Quoted.apostrophe :: inner <:+: Quoted.apostrophe :: (inner ++ [Quoted.apostrophe]) :=
    (List.prefix_append (Quoted.apostrophe :: inner) [Quoted.apostrophe]).isInfix
  rw [hcut, occurrences_word (fun m h => hliteral.noToken m (h.trans hinner))
    fun m h => absurd rfl (token_plain m _ h).1]

/-! ## Occurrences after a pass -/

/-- Where a pass keeps a character, a token begins after it exactly if one did before. -/
theorem begins_substitute (place : Placing) (c : Char) (rest : List Char) :
    begins? (c :: (substitute place (some c) rest).text) =
      (begins? (c :: rest)).map fun o => (o.1, (substitute place (some '_') o.2).text) := by
  cases h : begins? (c :: rest) with
  | none =>
      rw [Option.map_none, begins_eq_none_iff]
      intro m
      rw [← row_single, row_prefix_substitute_iff, row_single]
      exact begins_eq_none_iff.1 h m
  | some found =>
      obtain ⟨m, left⟩ := found
      have htoken := begins_eq_some_iff.1 h
      obtain ⟨tail, htail⟩ := token_eq_cons m
      rw [htail, List.cons_append] at htoken
      obtain ⟨rfl, rfl⟩ := List.cons.inj htoken
      rw [substitute_token_tail htail, Option.map_some, begins_eq_some_iff, htail]
      rfl

section

variable {m : Marker} {literal : List Char}

/-- Every occurrence after a pass was one before it, of the same token, with what follows it passed
over as well; none is counted twice. -/
theorem occurrences_substitute (hliteral : Inert literal) (before : Option Char)
    (text : List Char) :
    List.Sublist (occurrences (substitute (only m literal) before text).text)
      ((occurrences text).map fun o =>
        (o.1, (substitute (only m literal) (some '_') o.2).text)) := by
  induction before, text using substitute_induction (only m literal) with
  | nil before => simp [substitute_nil, occurrences]
  | placed before m₀ literal₀ text rest hfree hplace hbehind ih =>
      obtain ⟨rfl, rfl⟩ : m₀ = m ∧ literal = literal₀ := by
        simpa [only] using hplace
      obtain ⟨run, hrun, rfl⟩ := behind_eq_some_iff.1 hbehind
      rw [substitute_place hfree hplace hbehind, Pinned.afterLiteral_text,
        occurrences_literal hliteral]
      have hrest : (occurrences rest).Sublist (occurrences (run ++ (m₀.token ++ rest))) := by
        rw [← List.append_assoc]
        exact (occurrences_append _ rest).sublist
      exact List.Sublist.trans ih (hrest.map _)
  | kept before c rest hkeep ih =>
      rw [substitute_keep hkeep, Pinned.after_text, List.singleton_append, occurrences,
        begins_substitute, occurrences, List.map_append]
      refine List.Sublist.append ?_ ih
      cases begins? (c :: rest) <;> simp

/-- A pass takes away an occurrence for each literal that it places. -/
theorem length_occurrences_substitute (hliteral : Inert literal) (before : Option Char)
    (text : List Char) :
    (occurrences (substitute (only m literal) before text).text).length +
        (substitute (only m literal) before text).count ≤ (occurrences text).length := by
  induction before, text using substitute_induction (only m literal) with
  | nil before => simp [substitute_nil, occurrences]
  | placed before m₀ literal₀ text rest hfree hplace hbehind ih =>
      obtain ⟨rfl, rfl⟩ : m₀ = m ∧ literal = literal₀ := by
        simpa [only] using hplace
      obtain ⟨run, hrun, rfl⟩ := behind_eq_some_iff.1 hbehind
      -- The token is one occurrence, and neither the blanks before it nor the literal is another.
      have htoken := length_occurrences_token m₀ rest
      have hrun := (occurrences_append run (m₀.token ++ rest)).length_le
      rw [substitute_place hfree hplace hbehind, Pinned.afterLiteral_text,
        Pinned.afterLiteral_count, occurrences_literal hliteral]
      change _ + _ ≤ _ at ih
      omega
  | kept before c rest hkeep ih =>
      change _ + _ ≤ _ at ih
      rw [substitute_keep hkeep, Pinned.after_text, Pinned.after_count, List.singleton_append,
        occurrences, begins_substitute, occurrences, List.length_append, List.length_append]
      cases begins? (c :: rest) with
      | none =>
          simp only [Option.map_none, Option.toList_none, List.length_nil]
          omega
      | some found =>
          simp only [Option.map_some, Option.toList_some, List.length_singleton]
          omega

end

/-! ## Pinning again and again -/

/-- Pins both markers of a text that stands behind the character `before` of a whole text. -/
def pinBehind (p : Path) (before : Option Char) (text : List Char) : Pinned :=
  let once := substitute (only directory (literal p directory)) before text
  let twice := substitute (only file (literal p file)) before once.text
  ⟨twice.text, once.count + twice.count⟩

/-- Pinning a body is pinning it as a text that nothing stands before. -/
theorem pin_eq_pinBehind (p : Path) (body : List Char) : pin p body = pinBehind p none body :=
  pin_eq p body

variable {p : Path}

/-- Where tokens begin after pinning, one began before, and behind it stands what pinning has left
there. -/
theorem occurrences_pin (hp : ∀ m : Marker, ¬ m.token <:+: p.text) (body : List Char) :
    List.Sublist (occurrences (pin p body).text)
      ((occurrences body).map fun o => (o.1, (pinBehind p (some '_') o.2).text)) := by
  have honce := occurrences_substitute (m := directory) (literal_inert hp directory) none body
  have htwice := occurrences_substitute (m := file) (literal_inert hp file) none
    (substitute (only directory (literal p directory)) none body).text
  rw [pin_eq_pinBehind]
  refine htwice.trans ?_
  have := honce.map fun o => (o.1, (substitute (only file (literal p file)) (some '_') o.2).text)
  rwa [List.map_map] at this

/-- Pinning takes away an occurrence of a token for every literal that it places. -/
theorem length_occurrences_pin (hp : ∀ m : Marker, ¬ m.token <:+: p.text) (body : List Char) :
    (occurrences (pin p body).text).length + (pin p body).count ≤ (occurrences body).length := by
  have honce := length_occurrences_substitute (m := directory) (literal_inert hp directory) none
    body
  have htwice := length_occurrences_substitute (m := file) (literal_inert hp file) none
    (substitute (only directory (literal p directory)) none body).text
  rw [pin_eq_pinBehind]
  simp only [pinBehind]
  omega

/-- After as many rounds as there are occurrences, another one places nothing. -/
theorem pin_iterate_count (hp : ∀ m : Marker, ¬ m.token <:+: p.text) (rounds : Nat)
    (body : List Char) (h : (occurrences body).length ≤ rounds) :
    (pin p ((fun text => (pin p text).text)^[rounds] body)).count = 0 := by
  induction rounds generalizing body with
  | zero =>
      have := length_occurrences_pin hp body
      simp only [Function.iterate_zero, id_eq]
      omega
  | succ rounds ih =>
      have hpass := length_occurrences_pin hp body
      by_cases hcount : (pin p body).count = 0
      · -- A round that places nothing leaves the body to all that follow.
        have htext := (pin_count_eq_zero_iff_text p body).1 hcount
        rwa [Function.iterate_fixed htext]
      · rw [Function.iterate_succ_apply]
        exact ih _ (by omega)

/-- A body that no literal is placed in stays as it is. -/
theorem pin_of_count_eq_zero {body : List Char} (h : (pin p body).count = 0) :
    pin p body = ⟨body, 0⟩ :=
  calc pin p body = ⟨(pin p body).text, (pin p body).count⟩ := rfl
    _ = ⟨body, 0⟩ := by rw [h, (pin_count_eq_zero_iff_text p body).1 h]

/-- Where pinning places nothing, every token follows a byte that is excluded. -/
theorem bound_of_count_eq_zero {body rest : List Char} (h : (pin p body).count = 0) {m : Marker}
    (hmem : (m, rest) ∈ occurrences body) :
    ∃ head c, body = head ++ c :: (m.token ++ rest) ∧
      (String.utf8EncodeChar c).getLast?.any isExcluded = true := by
  obtain ⟨head, hbody⟩ := mem_occurrences.1 hmem
  have hbound : ¬ isFree (lastOf none head) = true := fun hfree =>
    (pin_count_eq_zero_iff p body).1 h m ⟨head, rest, hbody.symm, hfree⟩
  cases hlast : head.getLast? with
  | none =>
      rw [lastOf_eq_getLast, hlast] at hbound
      exact absurd rfl hbound
  | some c =>
      obtain ⟨front, rfl⟩ := List.getLast?_eq_some_iff.1 hlast
      refine ⟨front, c, by simp [← hbody], ?_⟩
      rw [excluded_last_byte]
      simpa [lastOf, isFree] using hbound

/-- Pinning to a path that holds no token brings no occurrence of a token, and takes away one at
least for each literal that it places. After as many rounds as there are occurrences a body stays as
it is, and every token left in it follows a byte that is excluded. -/
theorem pin_settles (p : Path) (hp : ∀ m : Marker, ¬ m.token <:+: p.text) (body : List Char) :
    List.Sublist (occurrences (pin p body).text)
        ((occurrences body).map fun o => (o.1, (pinBehind p (some '_') o.2).text)) ∧
      (occurrences (pin p body).text).length + (pin p body).count ≤ (occurrences body).length ∧
      ∀ rounds, (occurrences body).length ≤ rounds →
        let settled := (fun text => (pin p text).text)^[rounds] body
        pin p settled = ⟨settled, 0⟩ ∧
          ∀ m rest, (m, rest) ∈ occurrences settled →
            ∃ head c, settled = head ++ c :: (m.token ++ rest) ∧
              (String.utf8EncodeChar c).getLast?.any isExcluded = true := by
  refine ⟨occurrences_pin hp body, length_occurrences_pin hp body, fun rounds hrounds => ?_⟩
  have hcount := pin_iterate_count hp rounds body hrounds
  exact ⟨pin_of_count_eq_zero hcount, fun m rest hmem => bound_of_count_eq_zero hcount hmem⟩

/-- Of three directory tokens in a row each round frees the next one; one that is bound stays. -/
theorem pin_settles_row :
    let p : Path := ⟨[0x2F, 0x61, 0x2F, 0x62]⟩
    let body := "__DIR____DIR____DIR__ $__FILE__".toList
    (∀ m : Marker, ¬ m.token <:+: p.text) ∧ (occurrences body).length = 4 ∧
      (fun text => (pin p text).text)^[2] body = "'/a''/a'__DIR__ $__FILE__".toList ∧
      (fun text => (pin p text).text)^[4] body = "'/a''/a''/a' $__FILE__".toList ∧
      pin p ((fun text => (pin p text).text)^[4] body) =
        ⟨(fun text => (pin p text).text)^[4] body, 0⟩ := by
  have hp : ∀ m : Marker, ¬ m.token <:+: (⟨[0x2F, 0x61, 0x2F, 0x62]⟩ : Path).text := by
    intro m
    cases m <;> decide +kernel
  refine ⟨hp, by decide +kernel, by decide +kernel, by decide +kernel, ?_⟩
  exact ((pin_settles _ hp _).2.2 4 (by decide +kernel)).1

end Pinpoint.Marker
