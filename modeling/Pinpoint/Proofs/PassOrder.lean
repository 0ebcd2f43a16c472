import Pinpoint.Proofs.Separators

/-!
# One pass after the other

Pinning replaces the directory marker first, and then the file marker in what the first pass left.
`simultaneous` replaces both in one go, each judged by the text as it was given. The two agree
exactly if the first pass gives the second nothing new to see: no second marker stands right behind
a replaced first one, and the first literal holds no free second marker.
-/

namespace Pinpoint.Marker

/-- The other marker. -/
def other : Marker → Marker
  | directory => file
  | file => directory

/-- The other marker is another one. -/
theorem other_ne (m : Marker) : m.other ≠ m := by
  cases m <;> simp [other]

/-- There are two markers: one and the other. -/
theorem eq_or_eq_other (m m' : Marker) : m' = m ∨ m' = m.other := by
  cases m <;> cases m' <;> simp [other]

/-- The placing of both markers. -/
def both (lit : Marker → List Char) : Placing := fun m => some (lit m)

/-- Pins both markers, `first` before the other. -/
def pinFrom (first : Marker) (p : Path) (body : List Char) : Pinned :=
  let once := replace first (literal p first) body
  let twice := replace first.other (literal p first.other) once.text
  ⟨twice.text, once.count + twice.count⟩

/-- Pins both markers at once, each judged by the body as it was given. -/
def simultaneous (p : Path) (body : List Char) : Pinned :=
  substitute (both (literal p)) none body

/-- A token of `m` stands free, and behind it a token of the other marker, with nothing but blanks
between them. -/
def Trails (m : Marker) (before : Option Char) (text : List Char) : Prop :=
  ∃ run, AllBlank run ∧ Stands (m.token ++ (run ++ m.other.token)) before text

/-- Replacing `first` leaves the other marker as it was: none trails a free `first`, and the literal
that a free `first` is replaced by holds no free token of the other marker. -/
def Apart (lit : Marker → List Char) (first : Marker) (before : Option Char) (text : List Char) :
    Prop :=
  ¬ first.Trails before text ∧
    (Stands first.token before text → ¬ Stands first.other.token none (lit first))

/-! ## Trailing markers along a text -/

/-- A marker is ahead exactly if its token is, with nothing but blanks before it. -/
theorem behind_ne_none_iff {m : Marker} {text : List Char} :
    m.behind? text ≠ none ↔ ∃ run, AllBlank run ∧ run ++ m.token <+: text := by
  rw [Option.ne_none_iff_exists']
  constructor
  · rintro ⟨rest, h⟩
    obtain ⟨run, hrun, rfl⟩ := behind_eq_some_iff.1 h
    exact ⟨run, hrun, rest, by simp⟩
  · rintro ⟨run, hrun, rest, rfl⟩
    exact ⟨rest, behind_eq_some_iff.2 ⟨run, hrun, by simp⟩⟩

/-- Where a marker is replaced, a token stands free exactly if it is the one replaced or stands free
behind it. -/
theorem stands_token_ahead {before : Option Char} (hbefore : isFree before = true)
    {run : List Char} (hrun : AllBlank run) (m m' : Marker) (rest : List Char) :
    Stands m.token before (run ++ (m'.token ++ rest)) ↔
      m = m' ∨ Stands m.token (some '_') rest := by
  have := stands_ahead hbefore hrun m m' [] rest
  rw [token_append_prefix_iff] at this
  simpa using this

/-- Where a marker is replaced, a token of the other one trails it exactly if the other one is
ahead, or trails a later one. -/
theorem trails_ahead {before : Option Char} (hbefore : isFree before = true) {run : List Char}
    (hrun : AllBlank run) (m m' : Marker) (rest : List Char) :
    Trails m before (run ++ (m'.token ++ rest)) ↔
      (m = m' ∧ m.other.behind? rest ≠ none) ∨ Trails m (some '_') rest := by
  simp only [Trails, stands_ahead hbefore hrun, token_append_prefix_iff, behind_ne_none_iff]
  grind

/-- In an empty text nothing comes between the passes. -/
theorem apart_nil (lit : Marker → List Char) (first : Marker) (before : Option Char) :
    Apart lit first before [] := by
  constructor
  · rintro ⟨run, -, h⟩
    exact stands_nil (token_append_ne_nil first _) before h
  · intro h
    rw [← List.append_nil first.token] at h
    exact absurd h (stands_nil (token_append_ne_nil first []) before)

/-- Behind a replaced `first`, the other marker must neither be in its literal nor come next. -/
theorem apart_first (lit : Marker → List Char) {first : Marker} {before : Option Char}
    (hbefore : isFree before = true) {run : List Char} (hrun : AllBlank run) (rest : List Char) :
    Apart lit first before (run ++ (first.token ++ rest)) ↔
      ¬ Stands first.other.token none (lit first) ∧ first.other.behind? rest = none ∧
        Apart lit first (some '_') rest := by
  simp only [Apart, trails_ahead hbefore hrun, stands_token_ahead hbefore hrun]
  grind

/-- Behind a token of the other marker the passes are apart exactly if they are with it. -/
theorem apart_other (lit : Marker → List Char) {first : Marker} {before : Option Char}
    (hbefore : isFree before = true) {run : List Char} (hrun : AllBlank run) (rest : List Char) :
    Apart lit first before (run ++ (first.other.token ++ rest)) ↔
      Apart lit first (some '_') rest := by
  simp only [Apart, trails_ahead hbefore hrun, stands_token_ahead hbefore hrun]
  have := other_ne first
  grind

/-- Behind a character that is kept the passes are apart exactly if they are with it. -/
theorem apart_kept {lit : Marker → List Char} {first : Marker} {before : Option Char} {c : Char}
    {rest : List Char} (hkeep : Keeps (both lit) before (c :: rest)) :
    Apart lit first before (c :: rest) ↔ Apart lit first (some c) rest := by
  have hplace : both lit first ≠ none := by simp [both]
  have hstands := stands_kept hkeep hplace []
  simp only [List.append_nil] at hstands
  simp only [Apart, Trails, hstands, stands_kept hkeep hplace]

/-! ## What a pass leaves ahead -/

/-- A pass for one marker neither brings the other one ahead nor takes it away. -/
theorem behind_other_substitute {m : Marker} {literal : List Char} (hliteral : Delimited literal)
    (before : Option Char) (text : List Char) :
    m.other.behind? (substitute (only m literal) before text).text = none ↔
      m.other.behind? text = none := by
  induction before, text using substitute_induction (only m literal) with
  | nil before => simp [substitute_nil]
  | placed before m₀ literal₀ text rest hfree hplace hbehind ih =>
      obtain ⟨rfl, rfl⟩ : m₀ = m ∧ literal = literal₀ := by
        simpa [only] using hplace
      obtain ⟨inner, rfl⟩ := hliteral
      rw [substitute_place hfree hplace hbehind]
      refine iff_of_true (behind_apostrophe _ _) ?_
      cases h : m₀.other.behind? text with
      | none => rfl
      | some left => exact absurd (behind_unique h hbehind).1 (other_ne m₀)
  | kept before c rest hkeep ih =>
      rw [substitute_keep hkeep, Pinned.after_text, List.singleton_append]
      by_cases hc : isBlank c = true
      · rw [behind_cons_blank hc, behind_cons_blank hc]
        exact ih
      · rw [behind_cons_eq_none_iff hc, behind_cons_eq_none_iff hc, ← row_single,
          row_prefix_substitute_iff]

/-- What both placings keep, each keeps. -/
theorem keeps_of_both {lit : Marker → List Char} {before : Option Char} {text : List Char}
    (h : Keeps (both lit) before text) (place : Placing) : Keeps place before text := by
  intro hfree m rest hbehind
  exact absurd (h hfree m rest hbehind) (by simp [both])

/-- Where no marker is ahead, the first character of a text is kept. -/
theorem keeps_only {m : Marker} {text : List Char} (h : m.behind? text = none)
    (literal : List Char) (before : Option Char) : Keeps (only m literal) before text :=
  fun _ => only_eq_none_of literal h

/-- The character before a text matters only for what begins there. -/
theorem substitute_congr_before {place : Placing} {before before' : Option Char}
    {text : List Char} (h : Keeps place before text) (h' : Keeps place before' text) :
    substitute place before text = substitute place before' text := by
  cases text with
  | nil => rw [substitute_nil, substitute_nil]
  | cons c text => rw [substitute_keep h, substitute_keep h']

/-- A pass goes over a literal on its own, and goes on behind its closing apostrophe. -/
theorem substitute_delimited {literal : List Char} (hliteral : Delimited literal) (place : Placing)
    (before : Option Char) (more : List Char) :
    substitute place before (literal ++ more) =
      ⟨(substitute place none literal).text ++
          (substitute place (some Quoted.apostrophe) more).text,
        (substitute place none literal).count +
          (substitute place (some Quoted.apostrophe) more).count⟩ := by
  obtain ⟨inner, rfl⟩ := hliteral
  have hsplit : ∀ before more, substitute place before
      (Quoted.apostrophe :: (inner ++ [Quoted.apostrophe]) ++ more) =
        ⟨Quoted.apostrophe :: (substitute place (some Quoted.apostrophe) inner).text ++
            Quoted.apostrophe :: (substitute place (some Quoted.apostrophe) more).text,
          (substitute place (some Quoted.apostrophe) inner).count +
            (substitute place (some Quoted.apostrophe) more).count⟩ := by
    intro before more
    have hcut : Quoted.apostrophe :: (inner ++ [Quoted.apostrophe]) ++ more =
        (Quoted.apostrophe :: inner) ++ Quoted.apostrophe :: more := by simp
    rw [hcut, substitute_separator separates_apostrophe, substitute_apostrophe]
    simp
  -- The literal on its own is the case of no text behind it.
  have hnone := hsplit none []
  rw [List.append_nil, substitute_nil] at hnone
  rw [hsplit, hnone]
  simp

/-! ## The second pass -/

variable {lit : Marker → List Char}

/-- Behind a literal the other marker is free where it was bound, so the text read on from there
stays the same only if none comes next. -/
theorem behind_literal_text_eq (hlit : ∀ m, Delimited (lit m)) {first : Marker}
    {rest left : List Char} (h : first.other.behind? rest = some left) :
    (substitute (only first.other (lit first.other)) (some Quoted.apostrophe)
        (substitute (only first (lit first)) (some '_') rest).text).text ≠
      (substitute (both lit) (some '_') rest).text := by
  intro heq
  have hahead : first.other.behind? (substitute (only first (lit first)) (some '_') rest).text ≠
      none := by
    rw [ne_eq, behind_other_substitute (hlit first), h]
    simp
  obtain ⟨left', hleft'⟩ := Option.ne_none_iff_exists'.1 hahead
  obtain ⟨inner, hinner⟩ := hlit first.other
  rw [substitute_place (by decide) (only_self _ _) hleft', Pinned.afterLiteral_text, hinner] at heq
  cases rest with
  | nil => exact absurd h (by simp [behind_nil])
  | cons c rest =>
      rw [substitute_keep fun hfree => absurd hfree (by decide)] at heq
      exact head_ne_apostrophe h (List.cons.inj heq).1.symm

/-- A pass that has placed nothing in a literal reads on as it would behind the token that the
literal replaced, unless the other marker comes next. -/
theorem behind_literal_eq (hlit : ∀ m, Delimited (lit m)) {first : Marker} {rest : List Char}
    (h : first.other.behind? rest = none) :
    substitute (only first.other (lit first.other)) (some Quoted.apostrophe)
        (substitute (only first (lit first)) (some '_') rest).text =
      substitute (only first.other (lit first.other)) (some '_')
        (substitute (only first (lit first)) (some '_') rest).text := by
  have hahead := (behind_other_substitute (hlit first) (some '_') rest).2 h
  exact substitute_congr_before (keeps_only hahead _ _) (keeps_only hahead _ _)

/-- What both placings keep, the second pass keeps where the first has kept it. -/
theorem second_pass_keeps (hlit : ∀ m, Delimited (lit m)) (first : Marker)
    {before : Option Char} {c : Char} {rest : List Char}
    (hkeep : Keeps (both lit) before (c :: rest)) :
    Keeps (only first.other (lit first.other)) before
      (c :: (substitute (only first (lit first)) (some c) rest).text) := by
  intro hfree
  have hnone : first.other.behind? (c :: rest) = none := by
    cases h : first.other.behind? (c :: rest) with
    | none => rfl
    | some left => exact absurd (hkeep hfree first.other left h) (by simp [both])
  have hahead := (behind_other_substitute (hlit first) before (c :: rest)).2 hnone
  rw [substitute_keep (keeps_of_both hkeep _)] at hahead
  exact keeps_only hahead _ before hfree

/-- One pass after the other, from any place of a text, against both at once. -/
theorem second_pass_iff (hlit : ∀ m, Delimited (lit m)) (first : Marker) (before : Option Char)
    (text : List Char) :
    let once := substitute (only first (lit first)) before text
    let twice := substitute (only first.other (lit first.other)) before once.text
    let all := substitute (both lit) before text
    (twice.text = all.text ↔ Apart lit first before text) ∧
      (Apart lit first before text → once.count + twice.count = all.count) := by
  induction before, text using substitute_induction (both lit) with
  | nil before => simp [substitute_nil, apart_nil]
  | placed before m literal text rest hfree hplace hbehind ih =>
      obtain ⟨ihtext, ihcount⟩ := ih
      obtain rfl : lit m = literal := by simpa [both] using hplace
      obtain ⟨run, hrun, rfl⟩ := behind_eq_some_iff.1 hbehind
      rcases eq_or_eq_other first m with rfl | rfl
      · rw [substitute_place hfree (only_self _ _) hbehind, substitute_place hfree hplace hbehind]
        dsimp only [Pinned.afterLiteral_text]
        rw [substitute_delimited (hlit m), apart_first lit hfree hrun]
        by_cases hinside : Stands m.other.token none (lit m)
        · -- The second pass rewrites the literal itself.
          refine ⟨iff_of_false (fun heq => ?_) fun h => h.1 hinside, fun h => absurd hinside h.1⟩
          have hcount := count_eq_zero_of_text_eq (delimits_only (hlit m.other)) none (lit m) heq
          exact (only_count_eq_zero_iff ..).1 hcount hinside
        · have hcount := (only_count_eq_zero_iff m.other (lit m.other) none (lit m)).2 hinside
          rw [substitute_text_of_count_zero hcount, hcount]
          cases hnext : m.other.behind? rest with
          | some left =>
              -- Behind the literal the next marker is free, and behind the token it was bound.
              refine ⟨iff_of_false (fun heq => ?_) (by simp), by simp⟩
              exact behind_literal_text_eq hlit hnext (List.append_cancel_left heq)
          | none =>
              -- Nothing is ahead, so both read on alike behind the literal.
              rw [behind_literal_eq hlit hnext]
              constructor
              · simp [ihtext, hinside]
              · rintro ⟨-, -, h⟩
                have := ihcount h
                simp only [Pinned.afterLiteral_count] at this ⊢
                omega
      · -- The first pass keeps the other marker for the second one.
        rw [substitute_unplaced hrun (only_of_ne (other_ne first) _),
          substitute_place hfree hplace hbehind]
        dsimp only [Pinned.after_text]
        rw [List.append_assoc,
          substitute_place hfree (only_self _ _) (behind_run_token hrun _ _),
          apart_other lit hfree hrun]
        constructor
        · simp [ihtext]
        · intro h
          have := ihcount h
          simp only [Pinned.afterLiteral_count, Pinned.after_count] at this ⊢
          omega
  | kept before c rest hkeep ih =>
      obtain ⟨ihtext, ihcount⟩ := ih
      rw [substitute_keep (keeps_of_both hkeep _), substitute_keep hkeep, apart_kept hkeep]
      dsimp only [Pinned.after_text, List.singleton_append]
      rw [substitute_keep (second_pass_keeps hlit first hkeep)]
      exact ⟨by simpa using ihtext, ihcount⟩

/-! ## Main statement -/

/-- Pinning one marker after the other leaves the text of pinning both at once exactly if nothing
comes between the passes. -/
theorem pinFrom_text_iff (first : Marker) (p : Path) (body : List Char) :
    (pinFrom first p body).text = (simultaneous p body).text ↔
      Apart (literal p) first none body := by
  simp only [pinFrom, replace_eq]
  exact (second_pass_iff (literal_delimited p) first none body).1

/-- Where nothing comes between the passes, the numbers of literals agree too. -/
theorem pinFrom_eq_iff (first : Marker) (p : Path) (body : List Char) :
    pinFrom first p body = simultaneous p body ↔ Apart (literal p) first none body := by
  constructor
  · intro h
    exact (pinFrom_text_iff first p body).1 (congrArg Pinned.text h)
  · intro h
    obtain ⟨htext, hcount⟩ := second_pass_iff (literal_delimited p) first none body
    simp only [pinFrom, replace_eq, simultaneous, htext.2 h, hcount h]

/-- Pinning one marker after the other, in either order, is pinning both at once exactly where the
first pass leaves the other marker as it was. Both orders agree with pinning at once exactly if
that holds for both. -/
theorem pin_eq_simultaneous_iff (p : Path) (body : List Char) :
    (∀ first, (pinFrom first p body = simultaneous p body ↔ Apart (literal p) first none body) ∧
        ((pinFrom first p body).text = (simultaneous p body).text ↔
          Apart (literal p) first none body)) ∧
      (pin p body = simultaneous p body ∧ pinFrom file p body = pin p body ↔
        ∀ first, Apart (literal p) first none body) := by
  refine ⟨fun first => ⟨pinFrom_eq_iff first p body, pinFrom_text_iff first p body⟩, ?_⟩
  have hpin : pin p body = pinFrom directory p body := rfl
  constructor
  · rintro ⟨hboth, horder⟩ first
    rw [← pinFrom_eq_iff]
    cases first with
    | directory => exact hpin ▸ hboth
    | file => exact horder.trans hboth
  · intro h
    have hdirectory := (pinFrom_eq_iff directory p body).2 (h directory)
    exact ⟨hpin.trans hdirectory, ((pinFrom_eq_iff file p body).2 (h file)).trans
      (hpin.trans hdirectory).symm⟩

/-- A file marker right behind a directory marker is pinned, though it follows an underscore, and
not if it is pinned first. -/
theorem pin_directory_file :
    let p : Path := ⟨[0x2F, 0x61, 0x2F, 0x62]⟩
    let body := "__DIR____FILE__".toList
    pin p body = ⟨"'/a''/a/b'".toList, 2⟩ ∧
      simultaneous p body = ⟨"'/a'__FILE__".toList, 1⟩ ∧
      pinFrom file p body = ⟨"'/a'__FILE__".toList, 1⟩ := by
  decide +kernel

end Pinpoint.Marker
