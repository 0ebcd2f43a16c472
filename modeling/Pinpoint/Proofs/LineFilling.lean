import Pinpoint.Proofs.ProgressAccounts
import Pinpoint.Proofs.ProgressLayout

/-!
# Filling the last line

An end of a run writes blanks until its last line is full. Told as a loop, each turn writes a blank
as a glyph and then looks at the column; nothing says beforehand how many turns that takes. `Loop`
is this loop as a relation, which holds only where the loop ends. `loop_offer` runs it on any sink
from any state, and `Loop.run_pad` says that the blanks which an end counts out are those of the
loop. `finish_ends` puts this together for every state that calls can leave, whichever of their
texts were refused.
-/

namespace Pinpoint.Progress

variable {σ : Type}

/-- What a turn of the loop writes. -/
def blank (p : Progress) : Work := p.glyph none " " .done

/-- The loop from a state on: the states after its turns, and what it ends with. It ends with a turn
that is refused a text, or after which the column is at the end of a line. -/
inductive Loop (sink : Sink σ) : σ → Progress → List Progress → σ × Progress × Bool → Prop where
  | refused {held held' : σ} {p p' : Progress} (h : p.blank.run sink held = (held', p', false)) :
      Loop sink held p [p'] (held', p', false)
  | full {held held' : σ} {p p' : Progress} (h : p.blank.run sink held = (held', p', true))
      (hfull : p'.column % p'.width = 0) : Loop sink held p [p'] (held', p', true)
  | again {held held' : σ} {p p' : Progress} {turns : List Progress} {result : σ × Progress × Bool}
      (h : p.blank.run sink held = (held', p', true)) (hmore : p'.column % p'.width ≠ 0)
      (hrest : Loop sink held' p' turns result) : Loop sink held p (p' :: turns) result

variable {sink : Sink σ} {held : σ} {p : Progress}

/-- The loop ends in one way at most. -/
theorem Loop.unique {turns turns' : List Progress} {result result' : σ × Progress × Bool}
    (h : Loop sink held p turns result) (h' : Loop sink held p turns' result') :
    turns' = turns ∧ result' = result := by
  -- A turn has one result, so both loops end with the same turn or go on together.
  induction h generalizing turns' result' with
  | refused hrun =>
      cases h' with
      | refused hrun' =>
          cases hrun.symm.trans hrun'
          exact ⟨rfl, rfl⟩
      | full hrun' => cases hrun.symm.trans hrun'
      | again hrun' => cases hrun.symm.trans hrun'
  | full hrun hfull =>
      cases h' with
      | refused hrun' => cases hrun.symm.trans hrun'
      | full hrun' =>
          cases hrun.symm.trans hrun'
          exact ⟨rfl, rfl⟩
      | again hrun' hmore' =>
          cases hrun.symm.trans hrun'
          exact absurd hfull hmore'
  | again hrun hmore _ ih =>
      cases h' with
      | refused hrun' => cases hrun.symm.trans hrun'
      | full hrun' hfull' =>
          cases hrun.symm.trans hrun'
          exact absurd hfull' hmore
      | again hrun' _ hrest' =>
          cases hrun.symm.trans hrun'
          obtain ⟨rfl, rfl⟩ := ih hrest'
          exact ⟨rfl, rfl⟩

/-! ## One turn -/

/-- A turn is refused its blank, or moves the column; at the end of the line the percentage follows,
and may be refused. -/
theorem run_blank (sink : Sink σ) (held : σ) (p : Progress) :
    (∃ held', sink.write held " " = (held', false) ∧ p.blank.run sink held = (held', p, false)) ∨
    (∃ held', sink.write held " " = (held', true) ∧ (p.column + 1) % p.width ≠ 0 ∧
      p.blank.run sink held = (held', p.advance 1, true)) ∨
    ∃ held' held'' taken, sink.write held " " = (held', true) ∧ (p.column + 1) % p.width = 0 ∧
      sink.write held' (lineEnd p.percent) = (held'', taken) ∧
      p.blank.run sink held = (held'', p.advance 1, taken) := by
  have hblank : p.paint none " " = " " := rfl
  unfold blank glyph
  rw [Work.run, hblank]
  rcases sink.write held " " with ⟨held', _ | _⟩
  · exact .inl ⟨held', rfl, rfl⟩
  · by_cases hfull : (p.column + 1) % p.width = 0
    · refine .inr (.inr ?_)
      rcases hline : sink.write held' (lineEnd p.percent) with ⟨held'', taken⟩
      refine ⟨held', held'', taken, rfl, hfull, hline, ?_⟩
      show (if (p.column + 1) % p.width = 0 then
        Work.write (lineEnd p.percent) (p.advance 1) fun _ => .done (p.advance 1)
          else .done (p.advance 1)).run sink held' = _
      rw [if_pos hfull, Work.run, hline]
      cases taken with
      | false => rfl
      | true => rfl
    · refine .inr (.inl ⟨held', rfl, hfull, ?_⟩)
      simp only [hfull, if_false]
      rfl

/-- A turn that is refused nothing moves the column on by one. -/
theorem state_of_run_blank {held' : σ} {p' : Progress}
    (h : p.blank.run sink held = (held', p', true)) : p' = p.advance 1 := by
  obtain ⟨_, _, hrun⟩ | ⟨_, _, _, hrun⟩ | ⟨_, _, _, _, _, _, hrun⟩ := run_blank sink held p
  · cases h.symm.trans hrun
  · cases h.symm.trans hrun
    rfl
  · cases h.symm.trans hrun
    rfl

/-- Where one blank fills the line, one blank is padded. -/
theorem padding_of_full (h : (p.column + 1) % p.width = 0) : p.padding = 1 := by
  have hlt := Nat.mod_lt p.column p.width_pos
  -- The remainder is less than the width, and the width divides the number after it.
  rw [← Nat.mod_add_mod] at h
  have hdvd := Nat.le_of_dvd (Nat.succ_pos _) (Nat.dvd_of_mod_eq_zero h)
  unfold padding
  omega

/-- Before the end of a line, a glyph more is a blank less to fill it. -/
theorem padding_of_more (h : (p.column + 1) % p.width ≠ 0) :
    p.padding = (p.advance 1).padding + 1 := by
  have hlt := Nat.mod_lt p.column p.width_pos
  have hadvance : (p.advance 1).padding = p.width - (p.column + 1) % p.width := rfl
  rw [← Nat.mod_add_mod] at h hadvance
  have hne : p.column % p.width + 1 ≠ p.width := fun heq => h (by rw [heq, Nat.mod_self])
  rw [hadvance, Nat.mod_eq_of_lt (by omega)]
  unfold padding
  omega

/-! ## The whole loop -/

/-- The texts that fill the last line. -/
def fill (p : Progress) : List String := List.replicate p.padding " " ++ [lineEnd p.percent]

/-- The last line is filled by its blanks and the end of the line. -/
theorem length_fill (p : Progress) : p.fill.length = p.padding + 1 := by
  simp [fill]

/-- Where one blank fills the line, the fill is this blank and the end of the line. -/
theorem fill_of_full (h : (p.column + 1) % p.width = 0) : p.fill = [" ", lineEnd p.percent] := by
  rw [fill, padding_of_full h]
  rfl

/-- Where one blank does not fill the line, the fill goes on behind it. -/
theorem fill_of_more (h : (p.column + 1) % p.width ≠ 0) : p.fill = " " :: (p.advance 1).fill := by
  rw [fill, padding_of_more h]
  rfl

/-- A fill begins with a blank. -/
theorem fill_eq_cons (p : Progress) : ∃ rest, p.fill = " " :: rest := by
  by_cases h : (p.column + 1) % p.width = 0
  · exact ⟨_, fill_of_full h⟩
  · exact ⟨_, fill_of_more h⟩

/-- The states after the turns of a loop that is refused a text after `taken` others, or none. A
turn that is refused its blank leaves the column where it is. -/
def turns (p : Progress) (taken : Nat) : List Progress :=
  (List.range (min (taken + 1) p.padding)).map fun i => p.advance (min (i + 1) taken)

/-- A loop that is refused its first text has one turn, and it moves nothing. -/
theorem turns_zero (p : Progress) : p.turns 0 = [p] := by
  rw [turns, Nat.min_eq_left p.padding_pos]
  rfl

/-- A loop whose first blank fills the line has one turn. -/
theorem turns_of_full (h : (p.column + 1) % p.width = 0) {taken : Nat} (htaken : 1 ≤ taken) :
    p.turns taken = [p.advance 1] := by
  rw [turns, padding_of_full h, Nat.min_eq_right (Nat.le_add_left 1 taken), List.range_one,
    List.map_singleton, Nat.min_eq_left htaken]

/-- A loop whose first blank does not fill the line goes on with the turns behind it. -/
theorem turns_of_more (h : (p.column + 1) % p.width ≠ 0) (taken : Nat) :
    p.turns (taken + 1) = p.advance 1 :: (p.advance 1).turns taken := by
  rw [turns, padding_of_more h, Nat.add_min_add_right, List.range_succ_eq_map, List.map_cons,
    List.map_map, Nat.min_eq_left (by omega)]
  refine congrArg (_ :: ·) (List.map_congr_left fun i _ => ?_)
  rw [advance_advance, Nat.add_comm 1, ← Nat.add_min_add_right]
  rfl

/-- On any sink and from any state the loop ends, when the line is full or at the first text that is
refused. -/
theorem loop_offer (sink : Sink σ) (held : σ) (p : Progress) :
    Loop sink held p (p.turns (sink.offer held p.fill).2)
      ((sink.offer held p.fill).1, p.advance (min (sink.offer held p.fill).2 p.padding),
        decide ((sink.offer held p.fill).2 = p.fill.length)) := by
  -- The column only grows; what shrinks are the blanks up to the end of the line.
  induction hn : p.padding generalizing held p with
  | zero => exact absurd hn (Nat.ne_of_gt p.padding_pos)
  | succ n ih =>
      rw [← hn, length_fill]
      obtain ⟨held', hblank, hrun⟩ | ⟨held', hblank, hmore, hrun⟩ |
        ⟨held', held'', taken, hblank, hfull, hline, hrun⟩ := run_blank sink held p
      · obtain ⟨rest, hfill⟩ := p.fill_eq_cons
        simp only [hfill, Sink.offer, hblank, turns_zero]
        exact .refused hrun
      · have hpadding : (p.advance 1).padding = n := by
          have h := padding_of_more hmore
          omega
        have hrest := ih held' (p.advance 1) hpadding
        rw [advance_advance, Nat.add_comm 1, length_fill, hpadding] at hrest
        simp only [fill_of_more hmore, Sink.offer, hblank, turns_of_more hmore, hn,
          Nat.add_min_add_right, Nat.add_right_cancel_iff]
        exact .again hrun hmore hrest
      · simp only [fill_of_full hfull, Sink.offer, hblank, hline, padding_of_full hfull]
        cases taken with
        | false =>
            rw [turns_of_full hfull (Nat.le_refl 1)]
            exact .refused hrun
        | true =>
            rw [turns_of_full hfull (Nat.le_succ 1)]
            exact .full hrun hfull

/-! ## The loop of an end -/

/-- Goes on with a work where the one before ended, unless that was refused a text. -/
def goOn (sink : Sink σ) (next : Progress → Work) : σ × Progress × Bool → σ × Progress × Bool
  | (held, p, true) => (next p).run sink held
  | (held, p, false) => (held, p, false)

/-- What an end does once the last line is full. -/
def tell (p : Progress) : Work :=
  let told : Progress := { p with pending := [] }
  told.write (fun _ => told.write (fun _ => .done told) told.closing)
    (p.pending.reverse.flatMap told.detail)

/-- A work that begins with a glyph goes on where the glyph ended. -/
theorem run_glyph (p : Progress) (style : Option Style) (mark : String) (next : Progress → Work) :
    (p.glyph style mark next).run sink held =
      goOn sink next ((p.glyph style mark .done).run sink held) := by
  unfold glyph
  rw [Work.run, Work.run]
  rcases sink.write held (p.paint style mark) with ⟨held, _ | _⟩
  · rfl
  · dsimp only
    split
    · rw [Work.run, Work.run]
      rcases sink.write held _ with ⟨held, _ | _⟩
      · rfl
      · rfl
    · rfl

/-- Blanks that are counted out beforehand are those of the loop. -/
theorem Loop.run_pad {turns : List Progress} {result : σ × Progress × Bool}
    (h : Loop sink held p turns result) (next : Progress → Work) :
    (pad next p.padding p).run sink held = goOn sink next result := by
  induction h with
  | @refused held held' p p' hrun =>
      -- How many blanks are counted out does not matter: none is written behind a refused text.
      obtain ⟨n, hn⟩ : ∃ n, p.padding = n + 1 :=
        Nat.exists_eq_succ_of_ne_zero (Nat.ne_of_gt p.padding_pos)
      rw [hn, pad, run_glyph, ← blank, hrun]
      rfl
  | full hrun hfull =>
      obtain rfl := state_of_run_blank hrun
      rw [padding_of_full hfull, pad, run_glyph, ← blank, hrun]
      rfl
  | again hrun hmore _ ih =>
      obtain rfl := state_of_run_blank hrun
      rw [padding_of_more hmore, pad, run_glyph, ← blank, hrun, ← ih]
      rfl

/-- An end is its loop, and what it tells once the last line is full. -/
theorem Loop.run_finish {turns : List Progress} {result : σ × Progress × Bool}
    (h : Loop sink held p turns result) : p.finish.run sink held = goOn sink tell result := by
  show (pad tell p.padding p).run sink held = goOn sink tell result
  exact h.run_pad tell

/-! ## Every state that calls leave -/

/-- No call changes the width of a line, whichever of its texts is refused. -/
theorem width_run (sink : Sink σ) (held : σ) (p : Progress) (c : Call) :
    ((p.call c).run sink held).2.1.width = p.width := by
  -- A refusal leaves one of the states that stand beside the texts of the call.
  rw [Work.run_eq]
  refine Work.stateAt_of_forall (P := fun state => state.width = p.width)
    (fun step hstep => ?_) ?_ _
  · cases c with
    | begin total => rw [List.mem_singleton.1 hstep]
    | report r =>
        obtain ⟨n, hstate⟩ := state_of_mem_report hstep
        rw [hstate]
        rfl
    | finish =>
        rcases state_of_mem_finish hstep with ⟨n, hstate⟩ | hstate
        · rw [hstate]
          rfl
        · rw [hstate]
          rfl
  · cases c with
    | begin total => rfl
    | report r =>
        show (p.report r).final.width = p.width
        rw [(p.steps_report r).2]
        rfl
    | finish =>
        show p.finish.final.width = p.width
        rw [p.steps_finish.2]
        rfl

/-- Calls keep the width. -/
theorem width_calls (sink : Sink σ) (held : σ) (p : Progress) (cs : List Call) :
    (calls sink held p cs).2.1.width = p.width := by
  induction cs generalizing held p with
  | nil => rfl
  | cons c rest ih =>
      rw [calls]
      exact (ih _ _).trans (width_run sink held p c)

/-- A turn leaves the column within a width of where the loop began. -/
theorem of_mem_turns {taken : Nat} {q : Progress} (h : q ∈ p.turns taken) :
    q.width = p.width ∧ q.column ≤ p.column + p.width := by
  obtain ⟨i, hi, rfl⟩ := List.mem_map.1 h
  have hlt := List.mem_range.1 hi
  have hle : p.padding ≤ p.width := Nat.sub_le _ _
  refine ⟨rfl, Nat.add_le_add_left ?_ p.column⟩
  omega

/-- Whatever calls were made, and whichever of their texts were refused, a line has room for a glyph
and the loop of an end ends, in one way. It writes blanks up to the end of the line and then one
percentage, as far as the sink takes them, and the end goes on only if it takes them all: the column
is at the end of a line then. No turn moves the column past the next end of a line, so a counter
that can hold the column and the width together is never exceeded. An end that is refused a text, in
the loop or behind it, writes nothing more. -/
theorem finish_ends (sink : Sink σ) (held : σ) (width : Nat) (styled : Bool) (cs : List Call) :
    let reached := calls sink held (new width styled) cs
    let p := reached.2.1
    let blanks := p.width - p.column % p.width
    let texts := List.replicate blanks " " ++ [lineEnd p.percent]
    let offered := sink.offer reached.1 texts
    let ran := p.finish.run sink reached.1
    p.width = max width 1 ∧ (1 ≤ blanks ∧ blanks ≤ p.width) ∧
      (∃ turns after filled,
        (∀ turns' result, Loop sink reached.1 p turns' result ↔
          turns' = turns ∧ result = (offered.1, after, filled)) ∧
        turns.length ≤ blanks ∧
        (∀ q ∈ turns, q.width = p.width ∧ q.column ≤ p.column + p.width) ∧
        (filled = true ↔ offered.2 = texts.length) ∧
        (filled = true → turns.length = blanks ∧ after = p.advance blanks ∧
          p.width ∣ after.column) ∧
        ran = goOn sink tell (offered.1, after, filled)) ∧
      (p.finish.texts = texts ++ p.details ++ p.closing ∧
        ran.1 = (sink.offer reached.1 p.finish.texts).1 ∧
        (ran.2.2 = true ↔ (sink.offer reached.1 p.finish.texts).2 = p.finish.texts.length)) := by
  intro reached p blanks texts offered ran
  -- All follows from how many of the texts the sink takes: `loop_offer` gives the turns for it.
  have hloop := loop_offer sink reached.1 p
  have hlength : texts.length = blanks + 1 := p.length_fill
  refine ⟨width_calls sink held _ cs, ⟨p.padding_pos, Nat.sub_le _ _⟩,
    ⟨p.turns offered.2, p.advance (min offered.2 blanks), decide (offered.2 = texts.length),
      fun turns' result => ⟨hloop.unique, ?_⟩, ?_, fun q => of_mem_turns, decide_eq_true_iff,
      fun hfilled => ?_, hloop.run_finish⟩, p.texts_finish, ?_⟩
  · rintro ⟨rfl, rfl⟩
    exact hloop
  · rw [turns, List.length_map, List.length_range]
    exact Nat.min_le_right _ _
  · have hall : offered.2 = blanks + 1 := (of_decide_eq_true hfilled).trans hlength
    have hafter : min offered.2 blanks = blanks := by omega
    refine ⟨?_, congrArg p.advance hafter, ?_⟩
    · rw [turns, List.length_map, List.length_range, hall]
      exact Nat.min_eq_right (Nat.le_add_right blanks 2)
    · rw [hafter]
      exact Nat.dvd_of_mod_eq_zero p.advance_padding_mod
  · rw [show ran = _ from Work.run_eq sink reached.1 p.finish]
    exact ⟨rfl, decide_eq_true_iff⟩

end Pinpoint.Progress
