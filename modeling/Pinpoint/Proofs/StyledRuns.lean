import Pinpoint.Proofs.ProgressAccounts
import Pinpoint.Proofs.ProgressLayout
import Pinpoint.Proofs.TallyText

/-!
# Runs with styles and without

Styles add codes to what a run writes and change nothing else. `Style.strip` deletes the codes of a
text, and `Shows` says of two texts that deleting the codes of the first gives the second, whatever
stands behind it. A painted text shows as it stands (`shows_paint`), so does each text that a call
writes (`shows_call`), and the state of a run does not depend on its styles (`final_plain`).
`strip_calls` puts this together for any calls.
-/

namespace Pinpoint

namespace Style

/-! ## Deleting codes -/

/-- What stands behind a code at the front of a text: an escape, a bracket, digits and an `m`. -/
def afterCode? : List Char → Option (List Char)
  | c :: '[' :: rest =>
    if c = escapeChar ∧ rest.takeWhile Char.isDigit ≠ [] then
      match rest.dropWhile Char.isDigit with
      | 'm' :: behind => some behind
      | _ => none
    else none
  | _ => none

/-- What stands behind a code is shorter than the text that the code begins. -/
theorem afterCode_length {text behind : List Char} (h : afterCode? text = some behind) :
    behind.length < text.length := by
  unfold afterCode? at h
  split at h
  · next c rest =>
      split at h
      · split at h
        · next behind' hrest =>
            have hle := (List.dropWhile_suffix Char.isDigit (l := rest)).length_le
            rw [hrest] at hle
            cases h
            simp only [List.length_cons] at hle ⊢
            omega
        · cases h
      · cases h
  · cases h

/-- Deletes every code of a text. -/
def strip : List Char → List Char
  | [] => []
  | c :: rest =>
    match _h : afterCode? (c :: rest) with
    | some behind => strip behind
    | none => c :: strip rest
termination_by text => text.length
decreasing_by
  · exact afterCode_length ‹_›
  · exact Nat.lt_succ_self _

/-- A code is deleted where it begins a text. -/
theorem strip_of_code {text behind : List Char} (h : afterCode? text = some behind) :
    strip text = strip behind := by
  cases text with
  | nil => cases h
  | cons c rest =>
      rw [strip]
      split
      · next behind' h' => rw [Option.some.inj (h.symm.trans h')]
      · next h' => cases h.symm.trans h'

/-- A character that begins no code stays. -/
theorem strip_of_no_code {c : Char} {rest : List Char} (h : afterCode? (c :: rest) = none) :
    strip (c :: rest) = c :: strip rest := by
  rw [strip]
  split
  · next h' => cases h.symm.trans h'
  · rfl

/-- The code of a style is a number. -/
def IsNumber (s : Style) : Prop := s.code.toList ≠ [] ∧ ∀ c ∈ s.code.toList, c.isDigit

instance (s : Style) : Decidable s.IsNumber :=
  -- Only the characters of the text are tried, not all characters there are.
  @instDecidableAnd _ _ inferInstance (List.decidableBAll _ _)

/-- The opening of a style is deleted. -/
theorem strip_opening {s : Style} (hs : s.IsNumber) (rest : List Char) :
    strip (s.opening ++ rest) = strip rest := by
  refine strip_of_code ?_
  -- The `m` is no digit, so the digits of the code end before it whatever follows.
  have hdigits : (s.code.toList ++ 'm' :: rest).takeWhile Char.isDigit = s.code.toList := by
    rw [List.takeWhile_append_of_pos hs.2]
    exact List.append_nil _
  have hbehind : (s.code.toList ++ 'm' :: rest).dropWhile Char.isDigit = 'm' :: rest :=
    List.dropWhile_append_of_pos hs.2
  show afterCode? (escapeChar :: '[' :: (s.code.toList ++ ['m'] ++ rest)) = some rest
  rw [List.append_assoc, List.singleton_append, afterCode?, hdigits, hbehind, if_pos ⟨rfl, hs.1⟩]
  rfl

/-- The end of every style is deleted. -/
theorem strip_reset (rest : List Char) : strip (reset ++ rest) = strip rest :=
  strip_opening (s := ⟨"0"⟩) (by decide) rest

/-- A text without an escape stays, and so it begins no code with what follows. -/
theorem strip_bare {text : List Char} (h : escapeChar ∉ text) (rest : List Char) :
    strip (text ++ rest) = text ++ strip rest := by
  induction text with
  | nil => rfl
  | cons c text ih =>
      rw [List.mem_cons, not_or] at h
      rw [List.cons_append, strip_of_no_code, ih h.2, List.cons_append]
      unfold afterCode?
      split
      · next c' rest' heq =>
          obtain ⟨rfl, -⟩ := List.cons.inj heq
          exact if_neg fun hcode => h.1 hcode.1.symm
      · rfl

/-- A text without resets needs no code again. -/
theorem resume_bare (again : List Char) {text : List Char} (h : escapeChar ∉ text) :
    resume again text = text := by
  induction text with
  | nil => rw [resume]
  | cons c text ih =>
      rw [List.mem_cons, not_or] at h
      rw [resume, if_neg, ih h.2]
      intro hreset
      exact h.1 (List.cons_prefix_cons.1 (List.isPrefixOf_iff_prefix.1 hreset)).1

/-! ## Texts that show alike -/

/-- A text holds no escape, and so no code. -/
def Bare (text : String) : Prop := escapeChar ∉ text.toList

instance (text : String) : Decidable (Bare text) := inferInstanceAs (Decidable (¬ _))

/-- Deleting the codes of one text gives the other, whatever stands behind it. -/
def Shows (shown plain : String) : Prop :=
  ∀ rest, strip (shown.toList ++ rest) = plain.toList ++ strip rest

/-- A text shows as another if deleting its codes gives the other. -/
theorem Shows.strip_eq {shown plain : String} (h : Shows shown plain) :
    strip shown.toList = plain.toList := by
  have hnil := h []
  rwa [List.append_nil, strip, List.append_nil] at hnil

/-- Two texts, one behind the other, show as what each shows as. -/
theorem Shows.append {shown plain shown' plain' : String} (h : Shows shown plain)
    (h' : Shows shown' plain') : Shows (shown ++ shown') (plain ++ plain') := by
  intro rest
  rw [String.toList_append, List.append_assoc, h, h', String.toList_append, List.append_assoc]

/-- Texts that are joined show as what each of them shows as. -/
theorem shows_join_map {α : Type} {f g : α → String} {items : List α}
    (h : ∀ item ∈ items, Shows (f item) (g item)) :
    Shows (String.join (items.map f)) (String.join (items.map g)) := by
  induction items with
  | nil => exact fun rest => rfl
  | cons item items ih =>
      rw [List.map_cons, List.map_cons, String.join_cons, String.join_cons]
      exact (h item List.mem_cons_self).append (ih fun i hi => h i (List.mem_cons_of_mem item hi))

/-- A text without an escape shows as itself. -/
theorem Bare.shows {text : String} (h : Bare text) : Shows text text := strip_bare h

/-- Two texts hold no escape together exactly if neither does. -/
@[simp] theorem bare_append (text more : String) :
    Bare (text ++ more) ↔ Bare text ∧ Bare more := by
  unfold Bare
  rw [String.toList_append, List.mem_append, not_or]

/-- Joined texts hold no escape if none of them does. -/
theorem bare_join {texts : List String} (h : ∀ text ∈ texts, Bare text) :
    Bare (String.join texts) := by
  induction texts with
  | nil => exact List.not_mem_nil
  | cons text rest ih =>
      rw [String.join_cons, bare_append]
      exact ⟨h text List.mem_cons_self, ih fun t ht => h t (List.mem_cons_of_mem text ht)⟩

/-- A number holds no escape. -/
@[simp] theorem bare_toString (n : Nat) : Bare (toString n) := not_mem_toString (by decide) n

/-- A text in a style shows as the text. -/
theorem shows_apply {s : Style} (hs : s.IsNumber) {text : String} (h : Bare text) :
    Shows (s.apply text) text := by
  intro rest
  rw [apply, String.toList_ofList, resume_bare _ h, List.append_assoc, List.append_assoc,
    strip_opening hs, strip_bare h, strip_reset]

/-- A painted text shows as it would stand without styles. -/
theorem shows_paint (styled : Bool) {style : Option Style} (hstyle : ∀ s ∈ style, s.IsNumber)
    {text : String} (h : Bare text) : Shows (paint styled style text) (paint false style text) := by
  cases style with
  | none => exact h.shows
  | some s =>
      cases styled with
      | false => exact h.shows
      | true => exact shows_apply (hstyle s rfl) h

end Style

namespace Line

/-- A line without its carriage return has characters of the line only. -/
theorem mem_of_mem_dropReturn {c : Char} {line : List Char} (h : c ∈ dropReturn line) :
    c ∈ line := by
  unfold dropReturn at h
  split at h
  · exact List.mem_cons_of_mem _ h
  · exact h

/-- A line holds no character that the text does not hold. -/
theorem mem_of_mem_splitFrom {current text line : List Char} (hline : line ∈ splitFrom current text)
    {c : Char} (hc : c ∈ line) : c ∈ current ∨ c ∈ text := by
  induction text generalizing current with
  | nil =>
      rw [splitFrom] at hline
      split at hline
      · cases hline
      · rw [List.mem_singleton.1 hline, List.mem_reverse] at hc
        exact .inl hc
  | cons d rest ih =>
      rw [splitFrom] at hline
      split at hline
      · rcases List.mem_cons.1 hline with rfl | hline
        · exact .inl (mem_of_mem_dropReturn (List.mem_reverse.1 hc))
        · rcases ih hline with hnil | hrest
          · cases hnil
          · exact .inr (List.mem_cons_of_mem d hrest)
      · rcases ih hline with hcurrent | hrest
        · rcases List.mem_cons.1 hcurrent with rfl | hcurrent
          · exact .inr List.mem_cons_self
          · exact .inl hcurrent
        · exact .inr (List.mem_cons_of_mem d hrest)

/-- The lines of a text without an escape hold none. -/
theorem bare_of_mem_split {text line : String} (h : Style.Bare text) (hline : line ∈ split text) :
    Style.Bare line := by
  obtain ⟨chars, hchars, rfl⟩ := List.mem_map.1 hline
  intro hmem
  rw [String.toList_ofList] at hmem
  exact (mem_of_mem_splitFrom hchars hmem).elim List.not_mem_nil h

end Line

open Style (Bare Shows)

/-- Neither the description nor the message of a report holds an escape. -/
structure Report.IsBare (r : Report) : Prop where
  description : Bare r.description
  message : ∀ message ∈ r.message, Bare message

namespace Progress

/-! ## What a call writes -/

/-- The style of an outcome has a number for its code. -/
theorem isNumber_of_mem_style {o : Outcome} : ∀ s ∈ o.style?, s.IsNumber := by
  cases o <;> decide

/-- The mark of a report shows as the mark without its style. -/
theorem shows_mark (styled : Bool) (r : Report) :
    Shows (mark (Style.paint styled) r) (mark (Style.paint false) r) :=
  Style.shows_paint styled isNumber_of_mem_style (by cases r.outcome <;> decide)

/-- The block of a report shows as the block without its style. -/
theorem shows_block (styled : Bool) {r : Report} (h : r.IsBare) :
    Shows (block (Style.paint styled) r) (block (Style.paint false) r) := by
  -- Only the label is painted; the description and the lines of the message stand as they are.
  have hlabel : Bare r.outcome.label := by cases r.outcome <;> decide
  have hlines : Bare (String.join (((r.message.map Line.split).getD []).map ("\n    " ++ ·))) := by
    refine Style.bare_join fun text htext => ?_
    obtain ⟨line, hline, rfl⟩ := List.mem_map.1 htext
    refine (Style.bare_append _ _).2 ⟨by decide, ?_⟩
    cases hmessage : r.message with
    | none =>
        rw [hmessage] at hline
        cases hline
    | some message =>
        rw [hmessage] at hline
        exact Line.bare_of_mem_split (h.message message hmessage) hline
  have hline : Bare "\n" := by decide
  have hblank : Bare " " := by decide
  exact ((((hline.shows.append (Style.shows_paint styled isNumber_of_mem_style hlabel)).append
    hblank.shows).append h.description.shows).append hlines.shows).append hline.shows

/-- The end of a line holds no escape. -/
theorem bare_lineEnd (percent : Nat) : Bare (lineEnd percent) := by
  simp only [lineEnd, Style.bare_append, Style.bare_toString, and_true]
  decide

/-- The line of a tally holds no escape. -/
theorem bare_display (t : Tally) : Bare t.display := by
  unfold Bare
  rw [t.mem_display_iff (by decide) (by decide)]
  split <;> decide

/-- The verdict shows as the tally without its style. -/
theorem shows_verdict (styled : Bool) (t : Tally) :
    Shows (verdict (Style.paint styled) t) (verdict (Style.paint false) t) := by
  refine Style.shows_paint styled (fun s hs => ?_) (bare_display t)
  obtain rfl := Option.some.inj hs
  cases t.isSuccess <;> decide

/-- A state without styles. -/
def plain (p : Progress) : Progress := { p with styled := false }

/-- The text of a glyph shows as it would stand without styles, and so does what follows it at the
end of a line. -/
theorem shows_report (p : Progress) (r : Report) :
    Shows (String.join (p.report r).texts) (String.join (p.plain.report r).texts) := by
  have htexts : ∀ q : Progress, String.join (q.report r).texts = mark q.paint r ++
      if (q.column + 1) % q.width = 0 then lineEnd (q.count r).percent else "" := fun q => by
    rw [Work.texts_eq, (q.steps_report r).1, glyphSteps, List.map_cons, String.join_cons]
    show mark q.paint r ++ String.join ((if (q.column + 1) % q.width = 0 then
      [(lineEnd (q.count r).percent, (q.count r).advance 1)] else []).map Prod.fst) = _
    split
    · rw [List.map_singleton, String.join_cons, String.join_nil, String.append_empty]
    · rfl
  rw [htexts, htexts]
  refine (shows_mark p.styled r).append (Bare.shows ?_)
  split
  · exact bare_lineEnd _
  · decide

/-- The end of a run shows as it would stand without styles if the pending reports hold no codes of
their own. -/
theorem shows_finish {p : Progress} (hpending : ∀ r ∈ p.pending, r.IsBare) :
    Shows (String.join p.finish.texts) (String.join p.plain.finish.texts) := by
  have hblanks : Bare (String.join (List.replicate p.padding " ")) :=
    Style.bare_join fun text htext => by
      rw [(List.mem_replicate.1 htext).2]
      decide
  have hline : Bare (String.join [lineEnd p.percent]) :=
    Style.bare_join fun text htext => by
      rw [List.mem_singleton.1 htext]
      exact bare_lineEnd _
  have hdetails : Shows (String.join p.details) (String.join p.plain.details) := by
    rw [join_details, join_details]
    exact Style.shows_join_map fun r hr => shows_block p.styled (hpending r (List.mem_reverse.1 hr))
  have hclosing : Shows (String.join p.closing) (String.join p.plain.closing) := by
    rw [join_closing, join_closing]
    exact ((Bare.shows (by decide : Bare "\n\n")).append (shows_verdict p.styled p.tally)).append
      (Bare.shows (by decide : Bare "\n"))
  rw [texts_finish, texts_finish, show p.plain.padding = p.padding from rfl,
    show p.plain.percent = p.percent from rfl]
  simp only [String.join_append]
  exact ((hblanks.shows.append hline.shows).append hdetails).append hclosing

/-- What a call writes shows as it would stand without styles. -/
theorem shows_call {p : Progress} (hpending : ∀ r ∈ p.pending, r.IsBare) (c : Call) :
    Shows (String.join (p.call c).texts) (String.join (p.plain.call c).texts) := by
  cases c with
  | begin total => exact Bare.shows (by decide : Bare "\n")
  | report r => exact shows_report p r
  | finish => exact shows_finish hpending

/-! ## What calls leave -/

/-- A call does to a state without styles what it does to the state. -/
theorem final_plain (p : Progress) (c : Call) :
    (p.plain.call c).final = (p.call c).final.plain := by
  cases c with
  | begin total => rfl
  | report r =>
      show (p.plain.report r).final = (p.report r).final.plain
      rw [(steps_report _ r).2, (steps_report _ r).2]
      rfl
  | finish =>
      show p.plain.finish.final = p.finish.final.plain
      rw [(steps_finish _).2, (steps_finish _).2]
      rfl

/-- A call leaves no report pending but those that were pending before and the one it makes. -/
theorem mem_pending_final {p : Progress} {c : Call} {r : Report}
    (h : r ∈ (p.call c).final.pending) : r ∈ p.pending ∨ r ∈ c.report? := by
  cases c with
  | begin total => exact .inl h
  | report made =>
      have hnoted : r ∈ (p.noted made).pending := (p.steps_report made).2 ▸ h
      unfold noted at hnoted
      dsimp only at hnoted
      split at hnoted
      · rcases List.mem_cons.1 hnoted with rfl | hpending
        · exact .inr rfl
        · exact .inl hpending
      · exact .inl hnoted
  | finish =>
      have hended : r ∈ p.ended.pending := (p.steps_finish).2 ▸ h
      cases hended

/-- A run without styles goes through the same states, without styles. -/
theorem afterAll_plain (p : Progress) (cs : List Call) :
    p.plain.afterAll cs = (p.afterAll cs).plain := by
  induction cs generalizing p with
  | nil => rfl
  | cons c rest ih =>
      show ((p.plain.call c).final).afterAll rest = (((p.call c).final).afterAll rest).plain
      rw [final_plain, ih]

/-- The texts of calls show as those of the same calls without styles. -/
theorem shows_textsOf {p : Progress} (hpending : ∀ r ∈ p.pending, r.IsBare) {cs : List Call}
    (hcs : ∀ r ∈ reportsOf cs, r.IsBare) :
    Shows (String.join (p.textsOf cs)) (String.join (p.plain.textsOf cs)) := by
  -- Reports stay pending over calls, so their texts must be bare when an end tells of them.
  induction cs generalizing p with
  | nil => exact Bare.shows (by decide : Bare "")
  | cons c rest ih =>
      rw [textsOf, textsOf, String.join_append, String.join_append, final_plain]
      refine (shows_call hpending c).append (ih ?_ ?_)
      · intro r hr
        rcases mem_pending_final hr with hr | hr
        · exact hpending r hr
        · exact hcs r (List.mem_filterMap.2 ⟨c, List.mem_cons_self, hr⟩)
      · intro r hr
        rw [reportsOf_cons] at hcs
        exact hcs r (List.mem_append_right _ hr)

/-! ## Main statement -/

section

variable {σ : Type} {sink : Sink σ} {view : σ → String}

/-- On a sink that refuses nothing, calls with styles write what they write without, and codes
between. The calls succeed alike and leave the same state, its styles apart: the same column,
counts, tally and pending reports. -/
theorem strip_calls (hsink : sink.Keeps view) (held : σ) (width : Nat) (styled : Bool)
    {cs : List Call} (hcs : ∀ r ∈ reportsOf cs, r.IsBare) :
    let shown := calls sink held (new width styled) cs
    let plain := calls sink held (new width false) cs
    ∃ written : String, view shown.1 = view held ++ written ∧
      view plain.1 = view held ++ String.ofList (Style.strip written.toList) ∧
      plain.2.1 = { shown.2.1 with styled := false } ∧
      plain.2.2 = shown.2.2 := by
  intro shown plain
  obtain ⟨hview, hafter, htaken⟩ := calls_of_keeps hsink held (new width styled) cs
  obtain ⟨hview', hafter', htaken'⟩ := calls_of_keeps hsink held (new width false) cs
  have hshows : Shows (String.join ((new width styled).textsOf cs))
      (String.join ((new width false).textsOf cs)) :=
    shows_textsOf (fun r hr => absurd hr List.not_mem_nil) hcs
  refine ⟨_, hview, ?_, ?_, htaken'.trans htaken.symm⟩
  · rw [hview', hshows.strip_eq, String.ofList_toList]
  · rw [show plain.2.1 = _ from hafter', show shown.2.1 = _ from hafter]
    exact (new width styled).afterAll_plain cs

/-- A failure with a message and a spec that was skipped, on lines of two glyphs. -/
theorem strip_calls_two :
    let cs : List Call :=
      [.begin 2, .report ⟨.fail, "b", some "c"⟩, .report ⟨.skip, "d", none⟩, .finish]
    let shown := (calls Sink.unlimited "" (new 2 true) cs).1
    let plain := (calls Sink.unlimited "" (new 2 false) cs).1
    Sink.unlimited.Keeps id ∧ (∀ r ∈ reportsOf cs, r.IsBare) ∧
      shown = "\n\x1b[31mF\x1b[0m\x1b[36mS\x1b[0m 100%\n   100%\n" ++
        "\n\x1b[31m[FAILURE]\x1b[0m b\n    c\n\n\n" ++
        "\x1b[31mPassed 0 of 1 FAIL (FAILURE: 1, EXCEPTION: 0, INCOMPLETE: 0), 1 skipped\x1b[0m\n" ∧
      plain = "\nFS 100%\n   100%\n\n[FAILURE] b\n    c\n\n\n" ++
        "Passed 0 of 1 FAIL (FAILURE: 1, EXCEPTION: 0, INCOMPLETE: 0), 1 skipped\n" ∧
      plain = String.ofList (Style.strip shown.toList) := by
  intro cs shown plain
  have hcs : ∀ r ∈ reportsOf cs, r.IsBare := by
    intro r hr
    have hmem : ⟨.fail, "b", some "c"⟩ = r ∨ ⟨.skip, "d", none⟩ = r := by
      simpa [cs, reportsOf, Call.report?] using hr
    rcases hmem with rfl | rfl
    · exact ⟨by decide, by decide⟩
    · exact ⟨by decide, by decide⟩
  obtain ⟨written, hshown, hplain, -, -⟩ := strip_calls Sink.unlimited_keeps "" 2 true hcs
  refine ⟨Sink.unlimited_keeps, hcs, by decide +kernel, by decide +kernel, ?_⟩
  have hwritten : shown = written := hshown.trans String.empty_append
  rw [hwritten]
  exact hplain.trans String.empty_append

end

end Progress

end Pinpoint
