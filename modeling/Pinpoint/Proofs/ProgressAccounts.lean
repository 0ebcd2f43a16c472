import Pinpoint.Proofs.WorkSteps

/-!
# What becomes of notable reports

A sink may refuse any text and take later ones. Every notable report that was counted is then told
of in full by some end of a run, or still pending, or lost: `account` counts them over any calls.
`accounted_iff` says when none is lost. Two kinds of failure lose reports: that of the call which
makes a report, and that of an end which stops within the details. `unaccounted_reports` shows one
of each.
-/

namespace Pinpoint

/-- A sink that refuses one text, by its number from zero on, and takes all others. -/
def Sink.refusing (number : Nat) : Sink (Nat × String) :=
  ⟨fun (count, held) text =>
    ((count + 1, if count = number then held else held ++ text), count != number)⟩

namespace Progress

/-- The report that a call makes. -/
def Call.report? : Call → Option Report
  | .report r => some r
  | .begin _ | .finish => none

/-- The reports that some calls make. -/
def reportsOf (cs : List Call) : List Report := cs.filterMap Call.report?

/-- The reports among some that are to be told of. -/
def notable (reports : List Report) : List Report := reports.filter (·.outcome.isNotable)

/-- The reports of a list whose details stand at the front of some texts, in full and one behind the
other. -/
def toldIn (p : Progress) : List Report → List String → List Report
  | [], _ => []
  | r :: rest, texts =>
    if p.detail r <+: texts then r :: toldIn p rest (texts.drop (p.detail r).length) else []

/-- The reports that are told of come first in their list. -/
theorem toldIn_prefix (p : Progress) (reports : List Report) (texts : List String) :
    p.toldIn reports texts <+: reports := by
  induction reports generalizing texts with
  | nil => exact List.prefix_rfl
  | cons r rest ih =>
      rw [toldIn]
      split
      · exact List.prefix_cons_inj r |>.2 (ih _)
      · exact List.nil_prefix

/-- No texts tell of no report. -/
theorem toldIn_nil (p : Progress) (reports : List Report) : p.toldIn reports [] = [] := by
  cases reports with
  | nil => rfl
  | cons r rest =>
      rw [toldIn, if_neg]
      intro h
      exact absurd (List.prefix_nil.1 h) (by simp [detail])

/-- All reports are told of exactly if all of their details are among the texts. -/
theorem toldIn_take_eq_iff (p : Progress) (reports : List Report) (more : List String)
    (count : Nat) :
    p.toldIn reports ((reports.flatMap p.detail ++ more).take count) = reports ↔
      (reports.flatMap p.detail).length ≤ count := by
  induction reports generalizing count with
  | nil => simp [toldIn]
  | cons r rest ih =>
      rw [toldIn, List.flatMap_cons, List.append_assoc, List.length_append]
      by_cases hle : (p.detail r).length ≤ count
      · have hstarts : p.detail r <+: (p.detail r ++ (rest.flatMap p.detail ++ more)).take count :=
          List.prefix_take_iff.2 ⟨List.prefix_append _ _, hle⟩
        have hrest := ih (count - (p.detail r).length)
        rw [if_pos hstarts, List.drop_take, List.drop_left, List.cons_inj_right, hrest]
        omega
      · have hstarts : ¬ p.detail r <+:
            (p.detail r ++ (rest.flatMap p.detail ++ more)).take count :=
          fun h => hle (List.prefix_take_iff.1 h).2
        rw [if_neg hstarts]
        exact iff_of_false (List.cons_ne_nil r rest).symm (by omega)

/-! ## Attempts -/

/-- A call as it went: the state before it, and how many of its texts the sink took. -/
structure Attempt where
  before : Progress
  call : Call
  taken : Nat
  taken_le : taken ≤ (before.call call).texts.length

namespace Attempt

variable (a : Attempt)

def work : Work := a.before.call a.call

/-- The state that stays. -/
def after : Progress := a.work.stateAt a.taken

/-- Every text was taken. -/
def Succeeds : Prop := a.taken = a.work.texts.length

instance : Decidable a.Succeeds := inferInstanceAs (Decidable (_ = _))

/-- The reports that are told of in full: those whose details were taken behind the last line. -/
def told : List Report :=
  match a.call with
  | .finish => a.before.toldIn a.before.pending.reverse
      ((a.work.texts.take a.taken).drop (a.before.padding + 1))
  | .begin _ | .report _ => []

/-- The reports that are lost. -/
def lost : List Report :=
  match a.call with
  | .begin _ => []
  | .report r => if a.Succeeds then [] else notable [r]
  | .finish =>
    if a.taken ≤ a.before.padding then [] else a.before.pending.reverse.drop a.told.length

/-- No report is lost: the report that is made is shown, or needs not be told of; an end stops
before the last line is filled, or not before all details are written. -/
def Spares : Prop :=
  match a.call with
  | .begin _ => True
  | .report r => r.outcome.isNotable → a.Succeeds
  | .finish => a.taken ≤ a.before.padding ∨
      a.before.padding + 1 + a.before.details.length ≤ a.taken

end Attempt

variable {σ : Type}

/-- Calls on a sink as they went. -/
def attempts (sink : Sink σ) (held : σ) (p : Progress) : List Call → List Attempt
  | [] => []
  | c :: rest =>
    let ran := (p.call c).run sink held
    ⟨p, c, _, sink.offer_le held (p.call c).texts⟩ :: attempts sink ran.1 ran.2.1 rest

/-! ## One call -/

/-- The states that a report goes through count it, and differ in the column at most. -/
theorem state_of_mem_report {p : Progress} {r : Report} {step : String × Progress}
    (h : step ∈ (p.report r).steps) : ∃ n, step.2 = (p.count r).advance n := by
  rw [(p.steps_report r).1, glyphSteps, List.mem_cons] at h
  rcases h with rfl | h
  · exact ⟨0, rfl⟩
  · split at h
    · exact ⟨1, congrArg Prod.snd (List.mem_singleton.1 h)⟩
    · exact absurd h List.not_mem_nil

/-- So do the states in which the last line is filled. -/
theorem state_of_mem_fill {p : Progress} {step : String × Progress} (h : step ∈ p.fillSteps) :
    ∃ n, step.2 = p.advance n := by
  rcases List.mem_append.1 h with h | h
  · obtain ⟨i, -, rfl⟩ := List.mem_map.1 h
    exact ⟨i, rfl⟩
  · exact ⟨p.padding, congrArg Prod.snd (List.mem_singleton.1 h)⟩

/-- An end stays with the reports pending, or ends the run. -/
theorem state_of_mem_finish {p : Progress} {step : String × Progress}
    (h : step ∈ p.finish.steps) : (∃ n, step.2 = p.advance n) ∨ step.2 = p.ended := by
  rw [(steps_finish p).1] at h
  rcases List.mem_append.1 h with hfill | hrest
  · exact .inl (state_of_mem_fill hfill)
  · obtain ⟨text, -, rfl⟩ := List.mem_map.1 hrest
    exact .inr rfl

/-- An end that stops while it fills the last line leaves the pending reports as they are. -/
theorem pending_finish_of_le {p : Progress} {count : Nat} (h : count ≤ p.padding) :
    (p.finish.stateAt count).pending = p.pending := by
  have hlt : count < p.fillSteps.length := by
    rw [length_fillSteps]
    omega
  unfold Work.stateAt
  rw [(steps_finish p).1, List.getElem?_append_left hlt, List.getElem?_eq_getElem hlt]
  obtain ⟨n, hstate⟩ := state_of_mem_fill (List.getElem_mem hlt)
  show p.fillSteps[count].2.pending = p.pending
  rw [hstate]
  rfl

/-- An end that is beyond its last line has ended in all but its texts. -/
theorem stateAt_finish_of_lt {p : Progress} {count : Nat} (h : p.padding < count) :
    p.finish.stateAt count = p.ended := by
  unfold Work.stateAt
  rw [(steps_finish p).1, (steps_finish p).2,
    List.getElem?_append_right (by rw [length_fillSteps]; omega), List.getElem?_map]
  cases (p.details ++ p.closing)[count - p.fillSteps.length]? with
  | none => rfl
  | some text => rfl

/-- Behind the last line come the details. -/
theorem taken_details (p : Progress) (count : Nat) :
    (p.finish.texts.take count).drop (p.padding + 1) =
      (p.details ++ p.closing).take (count - (p.padding + 1)) := by
  rw [texts_finish, List.append_assoc, List.drop_take, List.drop_left' (by simp)]

/-- An end writes its blanks, the end of the line, the details and the closing. -/
theorem length_texts_finish (p : Progress) :
    p.finish.texts.length = p.padding + 1 + (p.details.length + p.closing.length) := by
  rw [texts_finish]
  simp only [List.length_append, List.length_replicate, List.length_singleton]
  omega

/-- A report that is noted is pending behind the others if it is to be told of. -/
theorem pending_noted (p : Progress) (r : Report) :
    (p.noted r).pending.reverse = p.pending.reverse ++ notable [r] := by
  unfold noted notable
  cases h : r.outcome.isNotable with
  | true => simp [h]
  | false => simp [h]

/-- A report is pending once all of its texts were taken. -/
theorem pending_report (p : Progress) (r : Report) {count : Nat}
    (h : count ≤ (p.report r).texts.length) :
    ((p.report r).stateAt count).pending =
      if count = (p.report r).texts.length then (p.noted r).pending else p.pending := by
  split
  · next hall => rw [hall, Work.stateAt_length, (p.steps_report r).2]
  · next hall =>
      have hlt : count < (p.report r).steps.length := by
        rw [← Work.length_texts]
        omega
      unfold Work.stateAt
      rw [List.getElem?_eq_getElem hlt]
      obtain ⟨n, hstate⟩ := state_of_mem_report (List.getElem_mem hlt)
      show (p.report r).steps[count].2.pending = p.pending
      rw [hstate]
      rfl

/-- A beginning leaves the pending reports as they are. -/
theorem pending_begin (p : Progress) (total count : Nat) :
    ((p.begin total).stateAt count).pending = p.pending :=
  Work.stateAt_of_forall (P := fun state => state.pending = p.pending)
    (fun step hstep => by rw [List.mem_singleton.1 hstep]) rfl count

namespace Attempt

section

variable (p : Progress) {count : Nat} (hle : count ≤ (p.call .finish).texts.length)

/-- An end tells of the pending reports whose details were taken behind the last line. -/
theorem told_finish : told ⟨p, .finish, count, hle⟩ =
    p.toldIn p.pending.reverse ((p.details ++ p.closing).take (count - (p.padding + 1))) := by
  show p.toldIn p.pending.reverse ((p.finish.texts.take count).drop (p.padding + 1)) = _
  rw [taken_details]

/-- The reports that an end tells of come first among the pending ones. -/
theorem told_finish_prefix : told ⟨p, .finish, count, hle⟩ <+: p.pending.reverse := by
  rw [told_finish]
  exact p.toldIn_prefix _ _

/-- An end tells of everything that was pending exactly if all details were taken. -/
theorem told_finish_eq_iff : told ⟨p, .finish, count, hle⟩ = p.pending.reverse ↔
    p.details.length ≤ count - (p.padding + 1) := by
  rw [told_finish]
  exact p.toldIn_take_eq_iff _ _ _

/-- Before the last line is filled an end tells of nothing. -/
theorem told_finish_of_le (h : count ≤ p.padding) : told ⟨p, .finish, count, hle⟩ = [] := by
  rw [told_finish, Nat.sub_eq_zero_of_le (by omega), List.take_zero, toldIn_nil]

/-- An end loses the pending reports that it does not tell of, unless it stops while it fills the
last line. -/
theorem lost_finish : lost ⟨p, .finish, count, hle⟩ =
    if count ≤ p.padding then []
    else p.pending.reverse.drop (told ⟨p, .finish, count, hle⟩).length := rfl

end

/-- What was pending and what is made is told of, lost, or pending afterwards. -/
theorem account (a : Attempt) :
    (a.before.pending.reverse ++ notable (reportsOf [a.call])).Perm
      (a.told ++ a.lost ++ a.after.pending.reverse) := by
  obtain ⟨p, c, count, hle⟩ := a
  cases c with
  | begin total =>
      show List.Perm (p.pending.reverse ++ []) ((p.begin total).stateAt count).pending.reverse
      rw [pending_begin, List.append_nil]
  | report r =>
      show List.Perm (p.pending.reverse ++ notable [r])
        ((if count = (p.report r).texts.length then [] else notable [r]) ++
          ((p.report r).stateAt count).pending.reverse)
      rw [pending_report p r hle]
      split
      · rw [pending_noted, List.nil_append]
      · exact List.perm_append_comm
  | finish =>
      show List.Perm (p.pending.reverse ++ []) (_ ++ (p.finish.stateAt count).pending.reverse)
      rw [List.append_nil, lost_finish]
      by_cases hfill : count ≤ p.padding
      · rw [if_pos hfill, pending_finish_of_le hfill, told_finish_of_le p hle hfill,
          List.nil_append, List.nil_append]
      · obtain ⟨rest, hrest⟩ := told_finish_prefix p hle
        rw [if_neg hfill, stateAt_finish_of_lt (Nat.lt_of_not_le hfill), ← hrest, List.drop_left]
        exact List.Perm.of_eq (List.append_nil _).symm

/-- A call loses nothing exactly if it spares all reports. -/
theorem lost_eq_nil_iff (a : Attempt) : a.lost = [] ↔ a.Spares := by
  obtain ⟨p, c, count, hle⟩ := a
  cases c with
  | begin total => exact iff_of_true rfl trivial
  | report r =>
      show (if count = (p.report r).texts.length then [] else notable [r]) = [] ↔
        (r.outcome.isNotable → count = (p.report r).texts.length)
      unfold notable
      split
      · next hall => simp [hall]
      · next hall => simp [hall]
  | finish =>
      show lost ⟨p, .finish, count, hle⟩ = [] ↔
        count ≤ p.padding ∨ p.padding + 1 + p.details.length ≤ count
      rw [lost_finish]
      split
      · next hfill => exact iff_of_true rfl (.inl hfill)
      · next hfill =>
          have hall : p.pending.reverse.length ≤ (told ⟨p, .finish, count, hle⟩).length ↔
              p.details.length ≤ count - (p.padding + 1) := by
            rw [← told_finish_eq_iff p hle]
            have hstarts := told_finish_prefix p hle
            exact ⟨hstarts.eq_of_length_le, fun h => Nat.le_of_eq (congrArg List.length h.symm)⟩
          rw [List.drop_eq_nil_iff, hall]
          omega

/-- An end that succeeds tells of everything that was pending. -/
theorem told_of_succeeds {a : Attempt} (hcall : a.call = .finish) (h : a.Succeeds) :
    a.told = a.before.pending.reverse := by
  obtain ⟨p, c, count, hle⟩ := a
  obtain rfl : c = .finish := hcall
  have hcount : count = p.finish.texts.length := h
  refine (told_finish_eq_iff p hle).2 ?_
  rw [hcount, length_texts_finish]
  omega

/-- A report is counted before its glyph is shown, whatever becomes of that. -/
theorem tally_after (a : Attempt) :
    a.after.tally = (reportsOf [a.call]).foldl (fun t r => t.record r.outcome) a.before.tally := by
  obtain ⟨p, c, count, hle⟩ := a
  cases c with
  | begin total =>
      exact Work.stateAt_of_forall (P := fun state => state.tally = p.tally)
        (fun step hstep => by rw [List.mem_singleton.1 hstep]) rfl count
  | report r =>
      refine Work.stateAt_of_forall (P := fun state => state.tally = p.tally.record r.outcome)
        (fun step hstep => ?_) ?_ count
      · obtain ⟨n, hstate⟩ := state_of_mem_report hstep
        rw [hstate]
        rfl
      · show (p.report r).final.tally = _
        rw [(p.steps_report r).2]
        rfl
  | finish =>
      refine Work.stateAt_of_forall (P := fun state => state.tally = p.tally)
        (fun step hstep => ?_) ?_ count
      · rcases state_of_mem_finish hstep with ⟨n, hstate⟩ | hstate
        · rw [hstate]
          rfl
        · rw [hstate]
          rfl
      · show p.finish.final.tally = _
        rw [(steps_finish p).2]
        rfl

end Attempt

/-! ## Any calls -/

/-- The reports of calls are those of the first call and of the others. -/
theorem reportsOf_cons (c : Call) (cs : List Call) :
    reportsOf (c :: cs) = reportsOf [c] ++ reportsOf cs :=
  List.filterMap_append (l := [c])

/-- The notable reports of two lists are those of each. -/
theorem notable_append (reports more : List Report) :
    notable (reports ++ more) = notable reports ++ notable more := List.filter_append ..

section

variable (sink : Sink σ) (held : σ) (p : Progress) (c : Call) (cs : List Call)

/-- The state after a call is the one that its attempt says. -/
theorem state_run : ((p.call c).run sink held).2.1 =
    Attempt.after ⟨p, c, _, sink.offer_le held (p.call c).texts⟩ := by
  rw [Work.run_eq]
  rfl

/-- Calls succeed as their attempts do. -/
theorem results_calls :
    (calls sink held p cs).2.2 = (attempts sink held p cs).map fun a => decide a.Succeeds := by
  induction cs generalizing held p with
  | nil => rfl
  | cons c rest ih =>
      rw [calls, attempts, List.map_cons, ← ih]
      refine congrArg (· :: _) ?_
      rw [Work.run_eq]
      rfl

/-- Calls count every report, whatever becomes of their texts. -/
theorem tally_calls :
    (calls sink held p cs).2.1.tally =
      (reportsOf cs).foldl (fun t r => t.record r.outcome) p.tally := by
  induction cs generalizing held p with
  | nil => rfl
  | cons c rest ih =>
      show (calls sink _ ((p.call c).run sink held).2.1 rest).2.1.tally = _
      rw [ih, state_run, Attempt.tally_after, reportsOf_cons c rest, List.foldl_append]

/-- Every notable report that was pending or is made is told of, lost, or pending in the end. -/
theorem account :
    (p.pending.reverse ++ notable (reportsOf cs)).Perm
      ((attempts sink held p cs).flatMap Attempt.told ++
        (attempts sink held p cs).flatMap Attempt.lost ++
        (calls sink held p cs).2.1.pending.reverse) := by
  induction cs generalizing held p with
  | nil => exact List.Perm.of_eq (List.append_nil _)
  | cons c rest ih =>
      have hcall := Attempt.account ⟨p, c, _, sink.offer_le held (p.call c).texts⟩
      have hrest := ih ((p.call c).run sink held).1 ((p.call c).run sink held).2.1
      rw [state_run] at hrest
      rw [reportsOf_cons, notable_append, attempts, List.flatMap_cons, List.flatMap_cons]
      show List.Perm _ (_ ++ _ ++
        (calls sink _ ((p.call c).run sink held).2.1 rest).2.1.pending.reverse)
      rw [state_run]
      rw [List.perm_iff_count] at hcall hrest ⊢
      intro r
      have hcallr := hcall r
      have hrestr := hrest r
      simp only [List.count_append] at hcallr hrestr ⊢
      omega

end

/-! ## Main statement -/

section

variable (sink : Sink σ) (held : σ) (p : Progress) (cs : List Call)

/-- Every notable report that calls make was told of in full by an end, or is still pending. -/
def Accounts : Prop :=
  (notable (reportsOf cs)).Perm
    ((attempts sink held p cs).flatMap Attempt.told ++ (calls sink held p cs).2.1.pending.reverse)

instance : Decidable (Accounts sink held p cs) := inferInstanceAs (Decidable (List.Perm _ _))

end

/-- On any sink, the tally counts the reports that were made. Every notable one among them is told
of in full by an end or still pending exactly if no call loses one: each call that made one
succeeded, and each end that failed did so before its last line was filled or behind its details.
What is pending is told of by the next end that succeeds. -/
theorem accounted_iff (sink : Sink σ) (held : σ) (width : Nat) (styled : Bool) (cs : List Call) :
    let start := new width styled
    let tries := attempts sink held start cs
    let final := (calls sink held start cs).2.1
    (calls sink held start cs).2.2 = tries.map (fun a => decide a.Succeeds) ∧
      final.tally = .ofList ((reportsOf cs).map (·.outcome)) ∧
      (Accounts sink held start cs ↔ ∀ a ∈ tries, a.Spares) ∧
      ∀ a ∈ tries, a.call = .finish → a.Succeeds → a.told = a.before.pending.reverse := by
  intro start tries final
  have haccount : List.Perm (notable (reportsOf cs)) (tries.flatMap Attempt.told ++
      tries.flatMap Attempt.lost ++ final.pending.reverse) := account sink held start cs
  have hlost : (∀ a ∈ tries, a.Spares) ↔ tries.flatMap Attempt.lost = [] := by
    rw [List.flatMap_eq_nil_iff]
    exact forall₂_congr fun a _ => a.lost_eq_nil_iff.symm
  refine ⟨results_calls sink held start cs, ?_, ?_, fun a _ => Attempt.told_of_succeeds⟩
  · rw [Tally.ofList, List.foldl_map]
    exact tally_calls sink held start cs
  · rw [hlost]
    constructor
    · intro hall
      have htold : List.Perm (notable (reportsOf cs))
        (tries.flatMap Attempt.told ++ final.pending.reverse) := hall
      -- If those told and those pending are all there are, none is left that was lost.
      have hlength := haccount.length_eq.symm.trans htold.length_eq
      simp only [List.length_append] at hlength
      exact List.eq_nil_of_length_eq_zero (by omega)
    · intro hnone
      rw [hnone, List.append_nil] at haccount
      exact haccount

/-- Reports that are counted, and neither told of nor pending. In the first calls the glyph of the
report is refused, and in the second the details of the second report; the end that succeeds later
says nothing of them. -/
theorem unaccounted_reports :
    let a : Report := ⟨.fail, "a", none⟩
    let b : Report := ⟨.fail, "b", none⟩
    let unshown := [.begin 1, .report a, .finish]
    let untold := [.begin 2, .report a, .report b, .finish, .finish]
    let first := calls (.refusing 1) (0, "") (new 2 false) unshown
    let second := calls (.refusing 9) (0, "") (new 2 false) untold
    (¬ Accounts (.refusing 1) (0, "") (new 2 false) unshown ∧
      first.2.2 = [true, false, true] ∧ first.2.1.tally.failed = 1 ∧ first.2.1.pending = [] ∧
      first.1.2 = "\n   100%\n\n\nPassed 0 of 1 FAIL (FAILURE: 1, EXCEPTION: 0, INCOMPLETE: 0)\n") ∧
    ¬ Accounts (.refusing 9) (0, "") (new 2 false) untold ∧
      second.2.2 = [true, true, true, false, true] ∧ second.2.1.tally.failed = 2 ∧
      second.2.1.pending = [] ∧
      second.1.2 = "\nFF 100%\n   100%\n\n[FAILURE] a\n   100%\n\n\n" ++
        "Passed 0 of 2 FAIL (FAILURE: 2, EXCEPTION: 0, INCOMPLETE: 0)\n" := by
  decide +kernel

end Progress

end Pinpoint
