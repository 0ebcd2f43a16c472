import Pinpoint.Proofs.Lookbehind

/-!
# Replacing a marker is a substitution

`Marker.replace` walks through a text once. It gathers blanks, decides at a token what becomes of
them, and passes over a token as a whole, whether it replaces it or not. `run_eq_substitute` is the
invariant of the walk: from any state it settles what the plain substitution answers for the
gathered blanks and the text ahead.
-/

namespace Pinpoint.Marker

/-- The one marker that is placed has its literal. -/
theorem only_self (m : Marker) (literal : List Char) : only m literal m = some literal := by
  simp [only]

/-- No other marker has a literal. -/
theorem only_of_ne {m m' : Marker} (h : m' ≠ m) (literal : List Char) :
    only m literal m' = none := by
  simp [only, h]

/-- Of the markers ahead, only the placed one counts. -/
theorem only_eq_none_of {m : Marker} {text : List Char} (literal : List Char)
    (h : m.behind? text = none) :
    ∀ m' left, m'.behind? text = some left → only m literal m' = none := by
  intro m' left hbehind
  refine only_of_ne (fun heq => ?_) literal
  subst heq
  simp [h] at hbehind

/-- Behind a character that binds, the first blank stays and lets the literal follow it. -/
theorem substitute_bound_run {place : Placing} {before : Option Char} {m : Marker}
    {literal run : List Char} {b : Char} (hbefore : ¬ isFree before = true)
    (hplace : place m = some literal) (hrun : AllBlank (b :: run)) (left : List Char) :
    substitute place before (b :: run ++ (m.token ++ left)) =
      ((substitute place (some '_') left).afterLiteral literal).after [b] := by
  have hb : isFree (some b) = true := isFree_of_isBlank (hrun b (by simp))
  rw [List.cons_append, substitute_keep fun hfree => absurd hfree hbefore,
    substitute_place hb hplace (behind_run_token (fun d hd => hrun d (by simp [hd])) m left)]

/-- Behind a character that binds and without blanks, the token stays. -/
theorem substitute_bound_token {place : Placing} {before : Option Char} {m : Marker}
    (hbefore : ¬ isFree before = true) (left : List Char) :
    substitute place before (m.token ++ left) =
      (substitute place (some '_') left).after m.token := by
  rw [substitute_binding (by simpa using hbefore) (token_all_binding m), lastOf_token]

/-- What a walk goes on with behind a token. -/
theorem drop_token {m : Marker} {c : Char} {rest left : List Char}
    (h : m.token ++ left = c :: rest) : rest.drop (m.token.length - 1) = left := by
  obtain ⟨tail, htail⟩ := token_eq_cons m
  rw [htail, List.cons_append] at h
  obtain ⟨-, rfl⟩ := List.cons.inj h
  simp [htail]

namespace Walk

/-- No blanks are gathered behind a token that was met. -/
theorem meet_blanks (w : Walk) (token literal : List Char) :
    (w.meet token literal).blanks = [] := by
  unfold meet
  split
  · rfl
  · split <;> rfl

/-- What follows a token that was met stands behind its last character. -/
theorem meet_before (w : Walk) (token literal : List Char) :
    (w.meet token literal).before = token.getLast? := by
  unfold meet
  split
  · rfl
  · split <;> rfl

/-- What meeting a token settles is what substitution makes of the blanks gathered and the
token. -/
theorem meet_eq_substitute (m : Marker) (literal : List Char) (w : Walk)
    (hblanks : AllBlank w.blanks.reverse) (left : List Char) :
    let rest := substitute (only m literal) (some '_') left
    let met := w.meet m.token literal
    let pinned := substitute (only m literal) w.before (w.blanks.reverse ++ (m.token ++ left))
    w.settled.reverse ++ pinned.text = met.settled.reverse ++ rest.text ∧
      w.count + pinned.count = met.count + rest.count := by
  unfold meet
  by_cases hfree : isFree w.before = true
  · rw [substitute_place hfree (only_self m literal) (behind_run_token hblanks m left)]
    simp [hfree]
    omega
  · cases hlast : w.blanks.getLast? with
    | none =>
        have hnil : w.blanks = [] := List.getLast?_eq_none_iff.1 hlast
        rw [hnil, List.reverse_nil, List.nil_append, substitute_bound_token hfree]
        simp [hfree]
    | some b =>
        obtain ⟨run, hrun⟩ := List.getLast?_eq_some_iff.1 hlast
        rw [hrun, List.reverse_append, List.reverse_singleton, List.singleton_append] at hblanks ⊢
        rw [substitute_bound_run hfree (only_self m literal) hblanks]
        simp [hfree]
        omega

/-- From any state, a walk adds to the settled text what substitution makes of the blanks gathered
and the text ahead. -/
theorem run_eq_substitute (m : Marker) (literal : List Char) (w : Walk) (text : List Char)
    (hblanks : AllBlank w.blanks) :
    let pinned := substitute (only m literal) w.before (w.blanks.reverse ++ text)
    (run m.token literal w text).text = w.settled.reverse ++ pinned.text ∧
      (run m.token literal w text).count = w.count + pinned.count := by
  have hreverse : AllBlank w.blanks.reverse := fun b hb => hblanks b (List.mem_reverse.1 hb)
  fun_induction run m.token literal w text with
  | case1 w =>
      have hrest := only_eq_none_of literal (behind_nil m)
      rw [substitute_run hreverse hrest, substitute_nil]
      simp [text]
  | case2 w c rest hc ih =>
      have hcons : AllBlank (c :: w.blanks) := List.forall_mem_cons.2 ⟨hc, hblanks⟩
      simpa using ih hcons fun b hb => hcons b (List.mem_reverse.1 hb)
  | case3 w c rest hc htoken ih =>
      -- The token is passed over as a whole; behind it a walk starts with no blanks.
      obtain ⟨left, hleft⟩ := List.isPrefixOf_iff_prefix.1 htoken
      rw [drop_token hleft] at ih ⊢
      obtain ⟨htext, hcount⟩ := meet_eq_substitute m literal w hreverse left
      obtain ⟨ihtext, ihcount⟩ := ih (by simp [meet_blanks, AllBlank])
        (by simp [meet_blanks, AllBlank])
      rw [meet_blanks, meet_before, token_getLast] at ihtext ihcount
      rw [← hleft]
      exact ⟨ihtext.trans htext.symm, ihcount.trans hcount.symm⟩
  | case4 w c rest hc htoken ih =>
      have hrest := only_eq_none_of literal
        ((behind_cons_eq_none_iff hc m rest).2 (by simpa using htoken))
      have hkeep : Keeps (only m literal) (lastOf w.before w.blanks.reverse) (c :: rest) :=
        fun _ => hrest
      have := ih (by simp [keep, AllBlank]) (by simp [keep, AllBlank])
      rw [substitute_run hreverse hrest, substitute_keep hkeep]
      simpa [keep] using this

end Walk

/-- A pass over a whole text begins with nothing settled and nothing gathered. -/
theorem replace_eq (m : Marker) (literal text : List Char) :
    replace m literal text = substitute (only m literal) none text := by
  obtain ⟨htext, hcount⟩ :=
    Walk.run_eq_substitute m literal .start text (by simp [Walk.start, AllBlank])
  simp only [Walk.start, List.reverse_nil, List.nil_append, Nat.zero_add] at htext hcount
  simp only [replace, Walk.start, htext, hcount]

/-- One pass over a text is the plain substitution of its marker: each occurrence is judged by the
byte before it and before its blanks, and no character is passed over that could begin one. A pass
that places nothing leaves the text as it is. -/
theorem replace_eq_substitute (m : Marker) (literal text : List Char) :
    replace m literal text = substitute (only m literal) none text ∧
      ((replace m literal text).count = 0 → (replace m literal text).text = text) := by
  rw [replace_eq]
  exact ⟨rfl, substitute_text_of_count_zero⟩

end Pinpoint.Marker
