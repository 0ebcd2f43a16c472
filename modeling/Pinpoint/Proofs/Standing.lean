import Pinpoint.Proofs.MarkerReplace

/-!
# Words that stand free

A word stands free in a text if it occurs at a place that a marker may begin at. A pass places a
literal for each free token. `stands_replace_iff` says which rows of tokens stand free after a
pass: those that did and do not begin with the token replaced, and those that stood right behind
it, for a literal binds nothing that follows.
-/

namespace Pinpoint.Marker

/-- `word` occurs in a text, at a place that a marker may begin at; the text stands behind
`before`. -/
def Stands (word : List Char) (before : Option Char) (text : List Char) : Prop :=
  ∃ head rest, text = head ++ (word ++ rest) ∧ isFree (lastOf before head) = true

/-- The tokens of some markers in a row. -/
def row (markers : List Marker) : List Char := markers.flatMap token

/-- A row of tokens is the first one and the row of the others. -/
theorem row_cons (m : Marker) (markers : List Marker) :
    row (m :: markers) = m.token ++ row markers := by
  simp [row]

/-- A row of tokens is not empty. -/
theorem row_ne_nil (m : Marker) (markers : List Marker) : row (m :: markers) ≠ [] := by
  rw [row_cons]
  exact token_append_ne_nil m (row markers)

/-- Every character of a row of tokens binds. -/
theorem row_all_binding (markers : List Marker) : AllBinding (row markers) := by
  intro c hc
  obtain ⟨m, -, hm⟩ := List.mem_flatMap.1 hc
  exact token_all_binding m c hm

/-! ## Occurrences along a text -/

/-- No word stands in the empty text. -/
theorem stands_nil {word : List Char} (hword : word ≠ []) (before : Option Char) :
    ¬ Stands word before [] := by
  rintro ⟨head, rest, heq, -⟩
  simp [hword] at heq

/-- A word stands free where the text begins, or behind its first character. -/
theorem stands_cons {word : List Char} (before : Option Char) (c : Char) (text : List Char) :
    Stands word before (c :: text) ↔
      (isFree before = true ∧ word <+: c :: text) ∨ Stands word (some c) text := by
  constructor
  · rintro ⟨head, rest, heq, hfree⟩
    cases head with
    | nil => exact .inl ⟨hfree, rest, heq.symm⟩
    | cons d head =>
        obtain ⟨rfl, rfl⟩ := List.cons.inj heq
        exact .inr ⟨head, rest, rfl, hfree⟩
  · rintro (⟨hfree, rest, heq⟩ | ⟨head, rest, rfl, hfree⟩)
    · exact ⟨[], rest, heq.symm, hfree⟩
    · exact ⟨c :: head, rest, rfl, hfree⟩

/-- A place that allows a marker allows one occurrence more than a place that does not. -/
theorem stands_free_iff {word : List Char} (hword : word ≠ []) {before bound : Option Char}
    (hbefore : isFree before = true) (hbound : isFree bound = false) (text : List Char) :
    Stands word before text ↔ word <+: text ∨ Stands word bound text := by
  cases text with
  | nil => simp [stands_nil hword, hword]
  | cons c text => simp [stands_cons, hbefore, hbound]

/-- No word stands free within text that binds. -/
theorem stands_binding {word binding : List Char} {before : Option Char}
    (hbefore : isFree before = false) (hbinding : AllBinding binding) (text : List Char) :
    Stands word before (binding ++ text) ↔ Stands word (lastOf before binding) text := by
  induction binding generalizing before with
  | nil => rfl
  | cons c binding ih =>
      have hc : isFree (some c) = false := not_isFree_of_binds (hbinding c (by simp))
      rw [List.cons_append, stands_cons, ih hc fun d hd => hbinding d (by simp [hd])]
      simp [hbefore, lastOf]

/-- What begins as a token does, does not begin within blanks. -/
theorem stands_run {run : List Char} (hrun : AllBlank run) (m : Marker) (more : List Char)
    (before : Option Char) (text : List Char) :
    Stands (m.token ++ more) before (run ++ text) ↔
      Stands (m.token ++ more) (lastOf before run) text := by
  induction run generalizing before with
  | nil => rfl
  | cons b run ih =>
      have hstart : ¬ m.token ++ more <+: b :: (run ++ text) := by
        obtain ⟨tail, htail⟩ := token_eq_cons m
        rw [htail, List.cons_append, List.cons_prefix_cons]
        rintro ⟨rfl, -⟩
        exact absurd (hrun '_' (by simp)) (by decide)
      rw [List.cons_append, stands_cons, ih fun d hd => hrun d (by simp [hd])]
      simp [hstart, lastOf]

/-- Behind blanks a text is as free as before them. -/
theorem isFree_lastOf_run {run : List Char} {before : Option Char}
    (hbefore : isFree before = true) (hrun : AllBlank run) :
    isFree (lastOf before run) = true := by
  induction run generalizing before with
  | nil => exact hbefore
  | cons b run ih =>
      exact ih (isFree_of_isBlank (hrun b (by simp))) fun d hd => hrun d (by simp [hd])

/-- Where a marker is ahead, what begins as a token does can only begin at its token, or behind
it. -/
theorem stands_ahead {before : Option Char} (hbefore : isFree before = true) {run : List Char}
    (hrun : AllBlank run) (m m' : Marker) (more rest : List Char) :
    Stands (m.token ++ more) before (run ++ (m'.token ++ rest)) ↔
      m.token ++ more <+: m'.token ++ rest ∨ Stands (m.token ++ more) (some '_') rest := by
  have hbound : isFree (some '_') = false := by decide
  rw [stands_run hrun,
    stands_free_iff (token_append_ne_nil m more) (isFree_lastOf_run hbefore hrun) hbound,
    stands_binding hbound (token_all_binding m'), lastOf_token]

/-- Where nothing is replaced, nothing begins that begins as a replaced token does. -/
theorem stands_kept {place : Placing} {before : Option Char} {c : Char} {rest : List Char}
    (hkeep : Keeps place before (c :: rest)) {m : Marker} (hplace : place m ≠ none)
    (more : List Char) :
    Stands (m.token ++ more) before (c :: rest) ↔ Stands (m.token ++ more) (some c) rest := by
  rw [stands_cons]
  refine ⟨?_, .inr⟩
  rintro (⟨hfree, hstart⟩ | h)
  · exact absurd hstart (hkeep.token_not_ahead hfree hplace more)
  · exact h

/-! ## Occurrences after a pass -/

/-- A text between apostrophes. -/
def Delimited (literal : List Char) : Prop :=
  ∃ inner, literal = Quoted.apostrophe :: (inner ++ [Quoted.apostrophe])

/-- A text between apostrophes ends with one. -/
theorem Delimited.lastOf_eq {literal : List Char} (h : Delimited literal) (before : Option Char) :
    lastOf before literal = some Quoted.apostrophe := by
  obtain ⟨inner, rfl⟩ := h
  simp [lastOf]

/-- Behind text that binds, what is kept first is what was there. -/
theorem prefix_substitute_iff {place : Placing} {before : Option Char}
    (hbefore : isFree before = false) {word : List Char} (hword : AllBinding word)
    (text : List Char) : word <+: (substitute place before text).text ↔ word <+: text := by
  induction word generalizing before text with
  | nil => simp
  | cons c word ih =>
      cases text with
      | nil => simp [substitute_nil]
      | cons d text =>
          rw [substitute_keep fun hfree => by simp [hbefore] at hfree]
          simp only [Pinned.after_text, List.singleton_append, List.cons_prefix_cons]
          refine and_congr_right fun hcd => ?_
          subst hcd
          exact ih (not_isFree_of_binds (hword c (by simp)))
            (fun d hd => hword d (by simp [hd])) text

/-- A literal that holds no token. -/
structure Inert (literal : List Char) : Prop where
  delimited : Delimited literal
  noToken : ∀ m : Marker, ¬ m.token <:+: literal

/-- No row of tokens begins within such a literal, or runs over its end. -/
theorem stands_literal {literal : List Char} (hliteral : Inert literal) (m : Marker)
    (markers : List Marker) (before : Option Char) (text : List Char) :
    Stands (row (m :: markers)) before (literal ++ text) ↔
      Stands (row (m :: markers)) (some Quoted.apostrophe) text := by
  have hlast := hliteral.delimited.lastOf_eq before
  constructor
  · rintro ⟨head, rest, heq, hfree⟩
    rcases List.append_eq_append_iff.1 heq with ⟨more, rfl, rfl⟩ | ⟨inside, hinside, hrest⟩
    · exact ⟨more, rest, rfl, by rwa [lastOf_append, hlast] at hfree⟩
    · rcases List.append_eq_append_iff.1 hrest with ⟨beyond, hbeyond, rfl⟩ | ⟨beyond, hbeyond, rfl⟩
      · -- The row lies within the literal, and so does its first token.
        refine absurd ?_ (hliteral.noToken m)
        refine ⟨head, row markers ++ beyond, ?_⟩
        rw [hinside, hbeyond, row_cons]
        simp
      · cases hback : inside.getLast? with
        | none =>
            rw [List.getLast?_eq_none_iff.1 hback, List.nil_append] at hbeyond
            exact ⟨[], rest, by rw [hbeyond, List.nil_append], by decide⟩
        | some c =>
            -- The row would run over the closing apostrophe, which is in no token.
            have hc : c = Quoted.apostrophe := by
              rw [hinside, lastOf_eq_getLast, List.getLast?_append, hback] at hlast
              exact Option.some.inj hlast
            have hbinds : binds c = true := by
              refine row_all_binding (m :: markers) c ?_
              rw [hbeyond]
              exact List.mem_append_left _ (List.mem_of_getLast? hback)
            rw [hc] at hbinds
            exact absurd hbinds (by decide)
  · rintro ⟨head, rest, rfl, hfree⟩
    exact ⟨literal ++ head, rest, by simp, by rwa [lastOf_append, hlast]⟩

/-- A row that begins with a kept character begins the text after a pass as it did before. -/
theorem row_prefix_substitute_iff {place : Placing} (m : Marker) (markers : List Marker) (c : Char)
    (rest : List Char) :
    row (m :: markers) <+: c :: (substitute place (some c) rest).text ↔
      row (m :: markers) <+: c :: rest := by
  obtain ⟨tail, htail⟩ := token_eq_cons m
  have hrow : row (m :: markers) = '_' :: (tail ++ row markers) := by
    rw [row_cons, htail, List.cons_append]
  have hbinding := row_all_binding (m :: markers)
  rw [hrow] at hbinding ⊢
  rw [List.cons_prefix_cons, List.cons_prefix_cons]
  refine and_congr_right fun hc => ?_
  subst hc
  exact prefix_substitute_iff (by decide) (fun d hd => hbinding d (by simp [hd])) rest

/-- After a pass, a row of tokens stands free if it did and its first token is not the one
replaced, or if it stood behind one that is. -/
theorem stands_substitute_iff {m : Marker} {literal : List Char} (hliteral : Inert literal)
    (m' : Marker) (markers : List Marker) (before : Option Char) (text : List Char) :
    Stands (row (m' :: markers)) before (substitute (only m literal) before text).text ↔
      (m' ≠ m ∧ Stands (row (m' :: markers)) before text) ∨
        Stands (row (m :: m' :: markers)) before text := by
  have hbound : isFree (some '_') = false := by decide
  induction before, text using substitute_induction (only m literal) with
  | nil before => simp [substitute_nil, stands_nil, row_ne_nil]
  | placed before m₀ literal₀ text rest hfree hplace hbehind ih =>
      change _ ↔ _ at ih
      obtain ⟨rfl, rfl⟩ : m₀ = m ∧ literal = literal₀ := by
        simpa [only] using hplace
      obtain ⟨run, hrun, rfl⟩ := behind_eq_some_iff.1 hbehind
      -- Behind the literal a row may begin at once, where it followed an underscore before.
      rw [substitute_place hfree hplace hbehind, Pinned.afterLiteral_text,
        stands_literal hliteral, stands_free_iff (row_ne_nil _ _) (by decide) hbound,
        prefix_substitute_iff hbound (row_all_binding _), ih, row_cons m₀, row_cons m',
        stands_ahead hfree hrun, stands_ahead hfree hrun, token_append_prefix_iff,
        token_append_prefix_iff]
      grind
  | kept before c rest hkeep ih =>
      change _ ↔ _ at ih
      have hplace : only m literal m ≠ none := by simp [only_self]
      -- A row that begins here does not begin with `m`, or `m` would have been replaced.
      have hfirst : m' = m → isFree before = true → ¬ row (m' :: markers) <+: c :: rest := by
        rintro rfl hfree
        rw [row_cons]
        exact hkeep.token_not_ahead hfree hplace (row markers)
      rw [substitute_keep hkeep, Pinned.after_text, List.singleton_append, stands_cons, stands_cons,
        row_prefix_substitute_iff, ih, row_cons m, stands_kept hkeep hplace]
      grind

/-! ## Free tokens -/

/-- A row of one token is this token. -/
theorem row_single (m : Marker) : row [m] = m.token := by
  simp [row]

/-- Nothing is placed exactly if no token of a placed marker stands free. -/
theorem count_eq_zero_iff (place : Placing) (before : Option Char) (text : List Char) :
    (substitute place before text).count = 0 ↔
      ∀ m, place m ≠ none → ¬ Stands m.token before text := by
  induction before, text using substitute_induction place with
  | nil before =>
      simpa [substitute_nil] using fun m _ => row_single m ▸ stands_nil (row_ne_nil m []) before
  | placed before m literal text rest hfree hplace hbehind ih =>
      rw [substitute_place hfree hplace hbehind]
      refine iff_of_false (by simp) fun h => h m (by simp [hplace]) ?_
      obtain ⟨run, hrun, rfl⟩ := behind_eq_some_iff.1 hbehind
      exact ⟨run, rest, rfl, isFree_lastOf_run hfree hrun⟩
  | kept before c rest hkeep ih =>
      rw [substitute_keep hkeep, Pinned.after_count, ih]
      refine forall_congr' fun m => imp_congr_right fun hplace => not_congr ?_
      simpa using (stands_kept hkeep hplace []).symm

/-- A pass for one marker places nothing exactly if its token does not stand free. -/
theorem only_count_eq_zero_iff (m : Marker) (literal : List Char) (before : Option Char)
    (text : List Char) :
    (substitute (only m literal) before text).count = 0 ↔ ¬ Stands m.token before text := by
  rw [count_eq_zero_iff]
  constructor
  · intro h
    exact h m (by simp [only])
  · intro h m' hm'
    have heq : m' = m := by
      by_cases heq : m' = m
      · exact heq
      · exact absurd (only_of_ne heq literal) hm'
    rwa [heq]

end Pinpoint.Marker
