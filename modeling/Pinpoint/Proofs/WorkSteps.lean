import Pinpoint.Progress

/-!
# Works, text by text

A work is a list of texts, each with the state that stays if it is refused, and the state in which
it ends. `run_eq` says that all a sink decides is how many of the texts it takes before it refuses
one. `steps_report` and `steps_finish` list the texts of the calls on a run, and `calls_of_keeps`
says what a sink holds that refuses nothing.
-/

namespace Pinpoint

namespace Sink

variable {σ : Type} {sink : Sink σ}

/-- Offers texts one by one, up to the first that is refused. Gives the sink then, and how many
texts it took. -/
def offer (sink : Sink σ) (held : σ) : List String → σ × Nat
  | [] => (held, 0)
  | text :: rest =>
    match sink.write held text with
    | (held, true) => ((offer sink held rest).1, (offer sink held rest).2 + 1)
    | (held, false) => (held, 0)

/-- A sink takes no more texts than it is offered. -/
theorem offer_le (held : σ) (texts : List String) : (sink.offer held texts).2 ≤ texts.length := by
  induction texts generalizing held with
  | nil => exact Nat.le_refl 0
  | cons text rest ih =>
      rw [offer]
      split
      · exact Nat.succ_le_succ (ih _)
      · exact Nat.zero_le _

/-- A sink refuses nothing; `view` is the text that it holds. -/
structure Keeps (sink : Sink σ) (view : σ → String) : Prop where
  takes (held : σ) (text : String) : (sink.write held text).2 = true
  view_write (held : σ) (text : String) :
    view (sink.write held text).1 = view held ++ text

/-- A sink without a limit takes every text, and holds them as they came. -/
theorem unlimited_keeps : unlimited.Keeps id := ⟨fun _ _ => rfl, fun _ _ => rfl⟩

variable {view : σ → String}

/-- A sink that refuses nothing takes every text that it is offered. -/
theorem Keeps.offer_eq (h : sink.Keeps view) (held : σ) (texts : List String) :
    view (sink.offer held texts).1 = view held ++ String.join texts ∧
      (sink.offer held texts).2 = texts.length := by
  induction texts generalizing held with
  | nil => exact ⟨String.append_empty.symm, rfl⟩
  | cons text rest ih =>
      have hwrite : sink.write held text = ((sink.write held text).1, true) :=
        Prod.ext rfl (h.takes held text)
      obtain ⟨hview, hcount⟩ := ih (sink.write held text).1
      rw [offer, hwrite]
      refine ⟨?_, congrArg Nat.succ hcount⟩
      rw [hview, h.view_write, String.join_cons, String.append_assoc]

end Sink

namespace Work

/-- The texts of a work, each with the state that stays if it is refused. -/
def steps : Work → List (String × Progress)
  | done _ => []
  | write text state next => (text, state) :: steps (next ())

/-- The texts of a work are those of its steps. -/
theorem texts_eq (w : Work) : w.texts = w.steps.map Prod.fst := by
  induction w with
  | done state => rfl
  | write text state next ih => exact congrArg (text :: ·) (ih ())

/-- A work has as many texts as steps. -/
theorem length_texts (w : Work) : w.texts.length = w.steps.length := by
  rw [texts_eq, List.length_map]

/-- The state that stays when `count` texts are taken and the next one, if there is one, is
refused. -/
def stateAt (w : Work) (count : Nat) : Progress := (w.steps[count]?.map Prod.snd).getD w.final

/-- A work all of whose texts are taken ends in its final state. -/
theorem stateAt_length (w : Work) : w.stateAt w.texts.length = w.final := by
  rw [stateAt, length_texts, List.getElem?_eq_none (Nat.le_refl _)]
  rfl

/-- A state in which a work may stop is the one it ends in, or stays with one of its texts. -/
theorem stateAt_of_forall {P : Progress → Prop} {w : Work} (hsteps : ∀ step ∈ w.steps, P step.2)
    (hfinal : P w.final) (count : Nat) : P (w.stateAt count) := by
  rw [stateAt]
  cases h : w.steps[count]? with
  | none => exact hfinal
  | some step => exact hsteps step (List.mem_of_getElem? h)

variable {σ : Type}

/-- A sink decides how much of a work is done, and nothing else. -/
theorem run_eq (sink : Sink σ) (held : σ) (w : Work) :
    w.run sink held = ((sink.offer held w.texts).1, w.stateAt (sink.offer held w.texts).2,
      decide ((sink.offer held w.texts).2 = w.texts.length)) := by
  induction w generalizing held with
  | done state => rfl
  | write text state next ih =>
      rw [run, texts, Sink.offer]
      rcases sink.write held text with ⟨held, _ | _⟩
      · exact Prod.ext rfl (Prod.ext rfl (by simp))
      · refine (ih () held).trans (Prod.ext rfl (Prod.ext rfl ?_))
        simp only [List.length_cons, Nat.add_right_cancel_iff]

/-- A sink that refuses nothing lets a work be done to its end. -/
theorem run_of_keeps {sink : Sink σ} {view : σ → String} (h : sink.Keeps view) (held : σ)
    (w : Work) :
    view (w.run sink held).1 = view held ++ String.join w.texts ∧
      (w.run sink held).2 = (w.final, true) := by
  obtain ⟨hview, hcount⟩ := h.offer_eq held w.texts
  rw [run_eq, hcount, stateAt_length]
  exact ⟨hview, by simp⟩

end Work

namespace Progress

/-! ## The texts of each call -/

/-- What stands behind a full line. -/
def lineEnd (percent : Nat) : String := " " ++ toString percent ++ "%\n"

/-- The state after a number of glyphs. -/
def advance (p : Progress) (count : Nat) : Progress := { p with column := p.column + count }

/-- The column moves on by one number and then by another. -/
theorem advance_advance (p : Progress) (m n : Nat) :
    (p.advance m).advance n = p.advance (m + n) := by
  rw [advance, advance, advance, Nat.add_assoc]

/-- The steps of a glyph. -/
def glyphSteps (p : Progress) (style : Option Style) (mark : String) : List (String × Progress) :=
  (p.paint style mark, p) ::
    if (p.column + 1) % p.width = 0 then [(lineEnd p.percent, p.advance 1)] else []

section

variable (p : Progress) (style : Option Style) (mark : String) (next : Progress → Work)

/-- A glyph is shown before the steps behind it are made. -/
theorem steps_glyph :
    (p.glyph style mark next).steps = p.glyphSteps style mark ++ (next (p.advance 1)).steps := by
  rw [glyph, Work.steps, glyphSteps]
  simp only [advance]
  split
  · rfl
  · rfl

/-- A work that begins with a glyph ends as what stands behind the glyph does. -/
theorem final_glyph : (p.glyph style mark next).final = (next (p.advance 1)).final := by
  rw [glyph, Work.final]
  simp only [advance]
  split
  · rfl
  · rfl

end

/-- The steps of the blanks that fill the last line. -/
def fillSteps (p : Progress) : List (String × Progress) :=
  (List.range p.padding).map (fun i => (" ", p.advance i)) ++
    [(lineEnd p.percent, p.advance p.padding)]

/-- The last line always takes a blank at least. -/
theorem padding_pos (p : Progress) : 0 < p.padding :=
  Nat.sub_pos_of_lt (Nat.mod_lt _ p.width_pos)

/-- Blanks are written up to the end of the line, where the percentage follows. -/
theorem pad_steps (next : Progress → Work) (n : Nat) (p : Progress)
    (hn : n + p.column % p.width = p.width) (hpos : 0 < n) :
    (pad next n p).steps = (List.range n).map (fun i => (" ", p.advance i)) ++
        [(lineEnd p.percent, p.advance n)] ++ (next (p.advance n)).steps ∧
      (pad next n p).final = (next (p.advance n)).final := by
  induction n generalizing p with
  | zero => exact absurd hpos (Nat.lt_irrefl 0)
  | succ n ih =>
      -- A blank brings the column one further, or to the end of the line if it is the last one.
      have hcolumn : (p.column + 1) % p.width =
          if n = 0 then 0 else p.column % p.width + 1 := by
        rw [← Nat.mod_add_mod]
        split
        · next hzero =>
            rw [show p.column % p.width + 1 = p.width by omega, Nat.mod_self]
        · exact Nat.mod_eq_of_lt (by omega)
      have hrange : (List.range (n + 1)).map (fun i => (" ", p.advance i)) =
          (" ", p) :: (List.range n).map fun i => (" ", (p.advance 1).advance i) := by
        rw [List.range_succ_eq_map, List.map_cons, List.map_map]
        refine congrArg _ (List.map_congr_left fun i _ => ?_)
        rw [advance_advance, Nat.add_comm 1 i]
        rfl
      rw [pad, steps_glyph, final_glyph, glyphSteps, hcolumn, hrange]
      by_cases hzero : n = 0
      · subst hzero
        exact ⟨rfl, rfl⟩
      · have hadvance : n + (p.advance 1).column % (p.advance 1).width = (p.advance 1).width := by
          rw [show (p.advance 1).column = p.column + 1 from rfl,
            show (p.advance 1).width = p.width from rfl, hcolumn, if_neg hzero]
          omega
        obtain ⟨hsteps, hfinal⟩ := ih (p.advance 1) hadvance (Nat.pos_of_ne_zero hzero)
        rw [hsteps, hfinal, advance_advance, Nat.add_comm 1 n, if_neg hzero, if_neg (by omega)]
        exact ⟨rfl, rfl⟩

/-- The blanks of the last line are written before what follows, and the column stands behind them.
-/
theorem steps_padding (p : Progress) (next : Progress → Work) :
    (pad next p.padding p).steps = p.fillSteps ++ (next (p.advance p.padding)).steps ∧
      (pad next p.padding p).final = (next (p.advance p.padding)).final := by
  have hlt : p.column % p.width < p.width := Nat.mod_lt _ p.width_pos
  exact pad_steps next p.padding p (by rw [padding]; omega) p.padding_pos

/-- Texts that are written one by one leave the state as it is. -/
theorem steps_write (p : Progress) (next : Unit → Work) (texts : List String) :
    (p.write next texts).steps = texts.map (·, p) ++ (next ()).steps ∧
      (p.write next texts).final = (next ()).final := by
  induction texts with
  | nil => exact ⟨rfl, rfl⟩
  | cons text rest ih => exact ⟨congrArg ((text, p) :: ·) ih.1, ih.2⟩

/-- The state with a report counted, but not shown. -/
def count (p : Progress) (r : Report) : Progress :=
  { p with made := p.made + 1, tally := p.tally.record r.outcome }

/-- The state with a report counted and shown. -/
def noted (p : Progress) (r : Report) : Progress :=
  { (p.count r).advance 1 with
    pending := if r.outcome.isNotable then r :: p.pending else p.pending }

/-- A report is counted before its glyph is shown, and noted behind it. -/
theorem steps_report (p : Progress) (r : Report) :
    (p.report r).steps = (p.count r).glyphSteps r.outcome.style? r.outcome.glyph ∧
      (p.report r).final = p.noted r := by
  rw [report, steps_glyph, final_glyph]
  refine ⟨List.append_nil _, ?_⟩
  unfold noted
  cases r.outcome.isNotable with
  | true => rfl
  | false => rfl

/-- The state in which a run ends: the last line is filled and nothing is pending. -/
def ended (p : Progress) : Progress := { p.advance p.padding with pending := [] }

/-- The texts that tell of the pending reports, the first one first. -/
def details (p : Progress) : List String := p.pending.reverse.flatMap p.detail

/-- An end fills the last line, and then tells of the pending reports and closes; these have ended
by then. -/
theorem steps_finish (p : Progress) :
    p.finish.steps = p.fillSteps ++ (p.details ++ p.closing).map (·, p.ended) ∧
      p.finish.final = p.ended := by
  rw [finish, (p.steps_padding _).1, (p.steps_padding _).2]
  simp only [(steps_write _ _ _).1, (steps_write _ _ _).2]
  refine ⟨congrArg (p.fillSteps ++ ·) ?_, rfl⟩
  rw [Work.steps, List.append_nil, ← List.map_append]
  rfl

/-- The last line is filled with blanks and an end. -/
theorem texts_fill (p : Progress) :
    p.fillSteps.map Prod.fst = List.replicate p.padding " " ++ [lineEnd p.percent] := by
  rw [fillSteps, List.map_append, List.map_map]
  refine congrArg (· ++ _) (List.eq_replicate_iff.2 ⟨by simp, ?_⟩)
  simp

/-- The last line takes a step for each blank, and one for its end. -/
theorem length_fillSteps (p : Progress) : p.fillSteps.length = p.padding + 1 := by
  simp [fillSteps]

/-- The texts of an end are the blanks, the end of the line, the details and the closing. -/
theorem texts_finish (p : Progress) :
    p.finish.texts = List.replicate p.padding " " ++ [lineEnd p.percent] ++ p.details ++
      p.closing := by
  rw [Work.texts_eq, p.steps_finish.1, List.map_append, texts_fill, List.map_map]
  simp [Function.comp_def]

/-! ## Calls on a sink that refuses nothing -/

/-- The texts of calls none of which is refused a text. -/
def textsOf (p : Progress) : List Call → List String
  | [] => []
  | c :: rest => (p.call c).texts ++ textsOf (p.call c).final rest

/-- The state after such calls. -/
def afterAll (p : Progress) (cs : List Call) : Progress :=
  cs.foldl (fun p c => (p.call c).final) p

section

variable (p : Progress) (c : Call) (cs ds : List Call)

/-- The texts of calls are told part by part, from the state in which each part begins. -/
theorem textsOf_append : p.textsOf (cs ++ ds) = p.textsOf cs ++ (p.afterAll cs).textsOf ds := by
  induction cs generalizing p with
  | nil => rfl
  | cons c rest ih =>
      rw [List.cons_append, textsOf, textsOf, ih, List.append_assoc]
      rfl

/-- The state after calls is told part by part. -/
theorem afterAll_append : p.afterAll (cs ++ ds) = (p.afterAll cs).afterAll ds :=
  List.foldl_append

end

variable {σ : Type} {sink : Sink σ} {view : σ → String}

/-- A sink that refuses nothing holds the texts of all calls in the end, and all succeed. -/
theorem calls_of_keeps (h : sink.Keeps view) (held : σ) (p : Progress) (cs : List Call) :
    view (calls sink held p cs).1 = view held ++ String.join (p.textsOf cs) ∧
      (calls sink held p cs).2.1 = p.afterAll cs ∧
      (calls sink held p cs).2.2 = cs.map fun _ => true := by
  induction cs generalizing held p with
  | nil => exact ⟨String.append_empty.symm, rfl, rfl⟩
  | cons c rest ih =>
      obtain ⟨hview, hrun⟩ := (p.call c).run_of_keeps h held
      obtain ⟨hrest, hafter, htaken⟩ := ih ((p.call c).run sink held).1 (p.call c).final
      rw [calls, show (p.call c).run sink held =
        (((p.call c).run sink held).1, (p.call c).final, true) from Prod.ext rfl hrun]
      refine ⟨?_, hafter, congrArg (true :: ·) htaken⟩
      rw [hrest, hview, textsOf, String.join_append, String.append_assoc]

end Progress

end Pinpoint
