import Pinpoint.Proofs.Standing

/-!
# Placing a literal changes the text

A literal begins with an apostrophe, and what it takes the place of never does: where the first
literal is placed, the text after a pass departs from the text before. A second pass cannot undo
this, for departures go on from one text to the next (`Departs.trans`).
-/

namespace Pinpoint.Marker

/-- Every literal placed stands between apostrophes. -/
def Delimits (place : Placing) : Prop :=
  ∀ m literal, place m = some literal → Delimited literal

/-- Placing a single literal between apostrophes places only such literals. -/
theorem delimits_only {m : Marker} {literal : List Char} (hliteral : Delimited literal) :
    Delimits (only m literal) := by
  intro m' literal' h
  obtain ⟨rfl, rfl⟩ : m' = m ∧ literal = literal' := by simpa [only] using h
  exact hliteral

/-- Neither a blank nor a token begins with an apostrophe. -/
theorem head_ne_apostrophe {m : Marker} {c : Char} {text rest : List Char}
    (h : m.behind? (c :: text) = some rest) : c ≠ Quoted.apostrophe := by
  obtain ⟨run, hrun, heq⟩ := behind_eq_some_iff.1 h
  cases run with
  | nil =>
      obtain ⟨tail, htail⟩ := token_eq_cons m
      rw [htail] at heq
      obtain ⟨rfl, -⟩ := List.cons.inj heq
      decide
  | cons b run =>
      obtain ⟨rfl, -⟩ := List.cons.inj heq
      rintro rfl
      exact absurd (hrun Quoted.apostrophe (by simp)) (by decide)

/-- No marker is ahead at an apostrophe. -/
theorem behind_apostrophe (m : Marker) (text : List Char) :
    m.behind? (Quoted.apostrophe :: text) = none := by
  cases h : m.behind? (Quoted.apostrophe :: text) with
  | none => rfl
  | some rest => exact absurd rfl (head_ne_apostrophe h)

/-- An apostrophe is kept by every pass. -/
theorem substitute_apostrophe (place : Placing) (before : Option Char) (text : List Char) :
    substitute place before (Quoted.apostrophe :: text) =
      (substitute place (some Quoted.apostrophe) text).after [Quoted.apostrophe] :=
  substitute_keep fun _ m rest h => by simp [behind_apostrophe] at h

/-- A text departs from the one before with an apostrophe: up to there they are the same, and the
one before goes on with another character. -/
def Departs (before after : List Char) : Prop :=
  ∃ kept c left more, c ≠ Quoted.apostrophe ∧ before = kept ++ c :: left ∧
    after = kept ++ Quoted.apostrophe :: more

/-- Texts that begin alike depart where what follows does. -/
theorem Departs.cons {before after : List Char} (h : Departs before after) (c : Char) :
    Departs (c :: before) (c :: after) := by
  obtain ⟨kept, d, left, more, hd, rfl, rfl⟩ := h
  exact ⟨c :: kept, d, left, more, hd, rfl, rfl⟩

/-- What stands behind both texts brings them no closer. -/
theorem Departs.append_ne {before after : List Char} (h : Departs before after)
    (more more' : List Char) : after ++ more ≠ before ++ more' := by
  obtain ⟨kept, c, left, left', hc, rfl, rfl⟩ := h
  intro heq
  simp only [List.append_assoc, List.cons_append] at heq
  exact hc (List.cons.inj (List.append_cancel_left heq)).1.symm

/-- Of two departures one after the other, the one that comes first in the text remains. -/
theorem Departs.trans {first second third : List Char} (h : Departs first second)
    (h' : Departs second third) : Departs first third := by
  obtain ⟨kept, c, left, more, hc, rfl, rfl⟩ := h
  obtain ⟨kept', c', left', more', hc', heq, rfl⟩ := h'
  rcases List.append_eq_append_iff.1 heq with ⟨between, rfl, hbetween⟩ | ⟨between, rfl, hbetween⟩
  · cases between with
    | nil => exact absurd (List.cons.inj hbetween).1.symm hc'
    | cons d between =>
        obtain ⟨rfl, rfl⟩ := List.cons.inj hbetween
        exact ⟨kept, c, left, between ++ Quoted.apostrophe :: more', hc, rfl, by simp⟩
  · cases between with
    | nil => exact absurd (List.cons.inj hbetween).1 hc'
    | cons d between =>
        obtain ⟨rfl, rfl⟩ := List.cons.inj hbetween
        exact ⟨kept', c', between ++ c :: left, more', hc', by simp, rfl⟩

/-- A pass that places a literal departs from the text where it places the first one. -/
theorem departs_substitute {place : Placing} (hdelimits : Delimits place) (before : Option Char)
    (text : List Char) (h : (substitute place before text).count ≠ 0) :
    Departs text (substitute place before text).text := by
  induction before, text using substitute_induction place with
  | nil before => simp [substitute_nil] at h
  | placed before m literal text rest hfree hplace hbehind ih =>
      obtain ⟨inner, rfl⟩ := hdelimits m literal hplace
      rw [substitute_place hfree hplace hbehind]
      cases text with
      | nil => exact absurd (behind_length_lt hbehind) (by simp)
      | cons c text => exact ⟨[], c, text, _, head_ne_apostrophe hbehind, rfl, rfl⟩
  | kept before c rest hkeep ih =>
      rw [substitute_keep hkeep] at h ⊢
      exact (ih h).cons c

/-- A pass places nothing and keeps the text, or it departs from it. -/
theorem kept_or_departs {place : Placing} (hdelimits : Delimits place) (before : Option Char)
    (text : List Char) :
    ((substitute place before text).count = 0 ∧ (substitute place before text).text = text) ∨
      Departs text (substitute place before text).text := by
  by_cases h : (substitute place before text).count = 0
  · exact .inl ⟨h, substitute_text_of_count_zero h⟩
  · exact .inr (departs_substitute hdelimits before text h)

/-- A pass over a text that stays the beginning of the whole has placed nothing in it. -/
theorem count_eq_zero_of_text_eq {place : Placing} (hdelimits : Delimits place)
    (before : Option Char) (text : List Char) {more more' : List Char}
    (h : (substitute place before text).text ++ more = text ++ more') :
    (substitute place before text).count = 0 := by
  refine Decidable.byContradiction fun hcount => ?_
  exact (departs_substitute hdelimits before text hcount).append_ne more more' h

/-! ## Pinning -/

/-- The literal of a path stands between apostrophes. -/
theorem literal_delimited (p : Path) (m : Marker) : Delimited (literal p m) := by
  cases m <;> exact ⟨_, rfl⟩

/-- Pinning is two passes, the second over the text that the first has left. -/
theorem pin_eq (p : Path) (body : List Char) :
    pin p body =
      let once := substitute (only directory (literal p directory)) none body
      let twice := substitute (only file (literal p file)) none once.text
      ⟨twice.text, once.count + twice.count⟩ := by
  simp only [pin, replace_eq]

/-- A pinned text in which a literal was placed departs from the text before, whichever pass has
placed it. -/
theorem departs_pin (p : Path) (body : List Char) (h : (pin p body).count ≠ 0) :
    Departs body (pin p body).text := by
  rw [pin_eq] at h ⊢
  dsimp only at h ⊢
  have hdirectory := delimits_only (m := directory) (literal_delimited p directory)
  have hfile := delimits_only (m := file) (literal_delimited p file)
  rcases kept_or_departs hdirectory none body with ⟨honce, htext⟩ | hdeparts
  · -- The first pass leaves the body to the second.
    rw [honce, htext, Nat.zero_add] at h
    rw [htext]
    exact departs_substitute hfile none body h
  · rcases kept_or_departs hfile none
      (substitute (only directory (literal p directory)) none body).text with
      ⟨-, htext⟩ | hdeparts'
    · rwa [htext]
    · exact hdeparts.trans hdeparts'

/-- Pinning places no literal exactly if it leaves the text as it is: the second pass cannot undo
the first. -/
theorem pin_count_eq_zero_iff_text (p : Path) (body : List Char) :
    (pin p body).count = 0 ↔ (pin p body).text = body := by
  constructor
  · intro h
    rw [pin_eq] at h ⊢
    obtain ⟨honce, htwice⟩ := Nat.add_eq_zero_iff.1 h
    exact (substitute_text_of_count_zero htwice).trans (substitute_text_of_count_zero honce)
  · intro h
    refine Decidable.byContradiction fun hcount => ?_
    exact (departs_pin p body hcount).append_ne [] [] (by simp [h])

/-- Pinning places no literal exactly if no token stands free. -/
theorem pin_count_eq_zero_iff (p : Path) (body : List Char) :
    (pin p body).count = 0 ↔ ∀ m : Marker, ¬ Stands m.token none body := by
  rw [pin_eq]
  constructor
  · intro h
    obtain ⟨honce, htwice⟩ := Nat.add_eq_zero_iff.1 h
    rw [substitute_text_of_count_zero honce] at htwice
    intro m
    cases m with
    | directory => exact (only_count_eq_zero_iff ..).1 honce
    | file => exact (only_count_eq_zero_iff ..).1 htwice
  · intro h
    have honce := (only_count_eq_zero_iff directory (literal p directory) none body).2 (h directory)
    have htwice := (only_count_eq_zero_iff file (literal p file) none body).2 (h file)
    dsimp only
    rw [substitute_text_of_count_zero honce, honce, htwice]

/-- Pinning a body to any path reports no literal exactly if the body stays as it is, and exactly if
no token stands free in it. A body that does not stay departs from the one before with an
apostrophe, the first of a literal. -/
theorem pinString_untouched_iff (p : Path) (body : String) :
    ((pinString p body).2 = 0 ↔ (pinString p body).1 = body) ∧
      ((pinString p body).2 = 0 ↔ ∀ m : Marker, ¬ Stands m.token none body.toList) ∧
      ((pinString p body).2 = 0 ∨ Departs body.toList (pinString p body).1.toList) := by
  have htext : (pinString p body).1 = body ↔ (pin p body.toList).text = body.toList := by
    rw [pinString, ← String.toList_inj, String.toList_ofList]
  rw [htext]
  refine ⟨pin_count_eq_zero_iff_text p body.toList, pin_count_eq_zero_iff p body.toList, ?_⟩
  rw [pinString, String.toList_ofList]
  by_cases hcount : (pin p body.toList).count = 0
  · exact .inl hcount
  · exact .inr (departs_pin p body.toList hcount)

end Pinpoint.Marker
