import Pinpoint.Proofs.Changes

/-!
# Separators

A separator is a character that is neither blank nor binds: no marker and no run of blanks before
one goes across it. `substitute_separator` says that a pass over a text treats the parts on both
sides of a separator apart, and `pin_separated` that pinning does, whatever the path holds. The
apostrophes of a literal are separators.
-/

namespace Pinpoint.Marker

/-- A character that no run of blanks and no token holds, and that any marker may follow. -/
structure Separates (c : Char) : Prop where
  notBlank : isBlank c = false
  notBinding : binds c = false

/-- An apostrophe separates. -/
theorem separates_apostrophe : Separates Quoted.apostrophe := ⟨by decide, by decide⟩

/-- A word without the separator that begins a text ends before the separator. -/
theorem prefix_separator {word text more : List Char} {c : Char} (hc : c ∉ word)
    (h : word <+: text ++ c :: more) : word <+: text := by
  induction text generalizing word with
  | nil =>
      cases word with
      | nil => exact List.nil_prefix
      | cons d word =>
          obtain ⟨rfl, -⟩ := List.cons_prefix_cons.1 h
          exact absurd List.mem_cons_self hc
  | cons d text ih =>
      cases word with
      | nil => exact List.nil_prefix
      | cons d' word =>
          obtain ⟨rfl, htail⟩ := List.cons_prefix_cons.1 h
          exact List.cons_prefix_cons.2 ⟨rfl, ih (fun hm => hc (List.mem_cons_of_mem _ hm)) htail⟩

/-- A marker ahead is ahead of a separator as a whole, or not at all. -/
theorem behind_separator {c : Char} (hc : Separates c) {m : Marker} {text more left : List Char}
    (h : m.behind? (text ++ c :: more) = some left) :
    ∃ rest, m.behind? text = some rest := by
  obtain ⟨run, hrun, heq⟩ := behind_eq_some_iff.1 h
  have hword : c ∉ run ++ m.token := by
    intro hm
    rcases List.mem_append.1 hm with hm | hm
    · exact absurd (hrun c hm) (by simp [hc.notBlank])
    · exact absurd (token_all_binding m c hm) (by simp [hc.notBinding])
  have hstart : run ++ m.token <+: text ++ c :: more := ⟨left, by simp [heq]⟩
  obtain ⟨rest, hrest⟩ := prefix_separator hword hstart
  exact ⟨rest, behind_eq_some_iff.2 ⟨run, hrun, by simp [← hrest]⟩⟩

/-- A marker that is ahead of a text is ahead of any longer one. -/
theorem behind_append {m : Marker} {text rest : List Char} (h : m.behind? text = some rest)
    (more : List Char) : m.behind? (text ++ more) = some (rest ++ more) := by
  obtain ⟨run, hrun, rfl⟩ := behind_eq_some_iff.1 h
  exact behind_eq_some_iff.2 ⟨run, hrun, by simp⟩

/-- A separator itself is kept. -/
theorem substitute_separator_head {c : Char} (hc : Separates c) (place : Placing)
    (before : Option Char) (more : List Char) :
    substitute place before (c :: more) = (substitute place (some c) more).after [c] := by
  refine substitute_keep fun _ m left h => ?_
  rw [← List.nil_append (c :: more)] at h
  obtain ⟨rest, hrest⟩ := behind_separator hc h
  simp [behind_nil] at hrest

/-- A pass treats the texts before and behind a separator apart. -/
theorem substitute_separator {c : Char} (hc : Separates c) (place : Placing)
    (before : Option Char) (text more : List Char) :
    substitute place before (text ++ c :: more) =
      ⟨(substitute place before text).text ++ c :: (substitute place (some c) more).text,
        (substitute place before text).count + (substitute place (some c) more).count⟩ := by
  induction before, text using substitute_induction place with
  | nil before =>
      rw [List.nil_append, substitute_separator_head hc, substitute_nil]
      simp [Pinned.after]
  | placed before m literal text rest hfree hplace hbehind ih =>
      rw [substitute_place hfree hplace hbehind,
        substitute_place hfree hplace (behind_append hbehind _), ih]
      simp [Pinned.afterLiteral]
      omega
  | kept before d rest hkeep ih =>
      have hkeep' : Keeps place before (d :: (rest ++ c :: more)) := by
        intro hfree m left h
        obtain ⟨left', hleft'⟩ := behind_separator hc (List.cons_append ▸ h)
        exact hkeep hfree m left' hleft'
      rw [List.cons_append, substitute_keep hkeep, substitute_keep hkeep', ih]
      simp [Pinned.after]

/-! ## Pinning -/

/-- All that a pass takes from the character before a text is whether it binds. -/
theorem substitute_congr_isFree {before before' : Option Char}
    (h : isFree before = isFree before') (place : Placing) (text : List Char) :
    substitute place before text = substitute place before' text := by
  rcases keeps_or_placed place before text with
    hkeep | ⟨m, literal, rest, hfree, hplace, hbehind⟩
  · cases text with
    | nil => rw [substitute_nil, substitute_nil]
    | cons c text =>
        have hkeep' : Keeps place before' (c :: text) := fun hfree => hkeep (h.trans hfree)
        rw [substitute_keep hkeep, substitute_keep hkeep']
  · rw [substitute_place hfree hplace hbehind, substitute_place (h.symm.trans hfree) hplace hbehind]

/-- What follows a separator is treated as a text of its own. -/
theorem substitute_separator_start {c : Char} (hc : Separates c) (place : Placing)
    (text : List Char) : substitute place (some c) text = substitute place none text := by
  have hfree : isFree (some c) = true := by simp [isFree, hc.notBinding]
  exact substitute_congr_isFree hfree place text

/-- A character that is no blank, and whose byte is not excluded, is a separator. -/
theorem separates_of_mayFollow {c : Char} (hblank : c ∉ blanks)
    (hbyte : mayFollow (some c) = true) : Separates c where
  notBlank := by
    rw [← blanks_contains]
    simpa using hblank
  notBinding := by
    rw [mayFollow_eq_isFree] at hbyte
    simpa [isFree] using hbyte

/-- Pinning treats the texts before and behind a separator apart: the second pass finds it where the
first has left it. -/
theorem pin_separator {c : Char} (hc : Separates c) (p : Path) (text more : List Char) :
    pin p (text ++ c :: more) =
      ⟨(pin p text).text ++ c :: (pin p more).text, (pin p text).count + (pin p more).count⟩ := by
  simp only [pin_eq, substitute_separator hc, substitute_separator_start hc]
  congr 1
  omega

/-- Pinning a text with separators in it pins each part on its own, and places as many literals as
are placed in the parts: a change of one part changes nothing in how another is pinned. -/
theorem pin_separated (p : Path) {c : Char} (hblank : c ∉ blanks)
    (hbyte : mayFollow (some c) = true) :
    (∀ text more, pin p (text ++ c :: more) =
      ⟨(pin p text).text ++ c :: (pin p more).text, (pin p text).count + (pin p more).count⟩) ∧
    ∀ parts, pin p ([c].intercalate parts) =
      ⟨[c].intercalate (parts.map fun part => (pin p part).text),
        parts.foldr (fun part count => (pin p part).count + count) 0⟩ := by
  have hc := separates_of_mayFollow hblank hbyte
  have hnil : pin p [] = ⟨[], 0⟩ := by simp [pin_eq, substitute_nil]
  refine ⟨pin_separator hc p, fun parts => ?_⟩
  induction parts with
  | nil => exact hnil
  | cons part parts ih =>
      cases parts with
      | nil => simp
      | cons next parts =>
          have hcut : [c].intercalate (part :: next :: parts) =
              part ++ c :: [c].intercalate (next :: parts) := by simp
          rw [hcut, pin_separator hc, ih]
          simp

/-- The statement at a semicolon and a path that holds a token. -/
theorem pin_separated_semicolon :
    let p : Path := ⟨"/__FILE__/b".toUTF8.toList⟩
    ';' ∉ blanks ∧ mayFollow (some ';') = true ∧
      pin p ("return __DIR__".toList ++ ';' :: "f(__FILE__)".toList) =
        ⟨(pin p "return __DIR__".toList).text ++ ';' :: (pin p "f(__FILE__)".toList).text,
          (pin p "return __DIR__".toList).count + (pin p "f(__FILE__)".toList).count⟩ := by
  have hblank : ';' ∉ blanks := by decide
  have hbyte : mayFollow (some ';') = true := by decide
  exact ⟨hblank, hbyte, (pin_separated _ hblank hbyte).1 _ _⟩

end Pinpoint.Marker
