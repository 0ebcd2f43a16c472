import Pinpoint.Proofs.ProgressLayout

/-!
# Runs one after another

A run begins where the one before it left off: its lines are its own, but its percentages and its
tally count every report that was made before. `written_after_runs` says so of each run of a
sequence, and which of its percentages are nevertheless those of the run alone;
`second_run_beyond_hundred` is the smallest sequence in which they are not.
-/

namespace Pinpoint.Progress

/-- Earlier reports move a percentage unless they all fall into the rest of the division. -/
theorem share_add_eq_iff (total made n : Nat) :
    share total (made + n) = share total n ↔
      total = 0 ∨ 100 * n % total + 100 * made < total := by
  unfold share
  split
  · next hzero => exact iff_of_true rfl (.inl hzero)
  · next hzero =>
      have hpos := Nat.pos_of_ne_zero hzero
      have hsplit : 100 * (made + n) =
          total * (100 * n / total) + (100 * n % total + 100 * made) := by
        rw [← Nat.add_assoc, Nat.div_add_mod, Nat.mul_add, Nat.add_comm]
      rw [hsplit, Nat.mul_add_div hpos, Nat.add_eq_left, Nat.div_eq_zero_iff]

/-! ## What is carried from run to run -/

/-- A run may begin, and the reports in `earlier` were made. -/
structure Carries (width : Nat) (styled : Bool) (earlier : List Report) (p : Progress) : Prop
    extends Ready p where
  width_eq : p.width = max width 1
  styled_eq : p.styled = styled
  made_eq : p.made = earlier.length
  tally_eq : p.tally = .ofList (earlier.map (·.outcome))

variable {width : Nat} {styled : Bool} {earlier : List Report} {p : Progress}

/-- A new state carries nothing from runs before it. -/
theorem carries_new (width : Nat) (styled : Bool) : Carries width styled [] (new width styled) :=
  ⟨ready_new width styled, rfl, rfl, rfl, rfl⟩

/-- Outcomes are counted on behind those of the runs before. -/
theorem foldl_record (earlier reports : List Report) :
    reports.foldl (fun t r => t.record r.outcome) (Tally.ofList (earlier.map (·.outcome))) =
      .ofList ((earlier ++ reports).map (·.outcome)) := by
  unfold Tally.ofList
  rw [List.map_append, List.foldl_append, List.foldl_map (l := reports)]

/-- One run more. -/
theorem Carries.run (h : Carries width styled earlier p) (r : Run) :
    Carries width styled (earlier ++ r.reports) (p.afterAll r.calls) := by
  rw [afterAll_run]
  refine ⟨ready_ended _, h.width_eq, h.styled_eq, ?_, ?_⟩
  · show p.made + r.reports.length = _
    rw [h.made_eq, List.length_append]
  · show r.reports.foldl (fun t r => t.record r.outcome) p.tally = _
    rw [h.tally_eq, foldl_record]

/-- Some runs more. -/
theorem Carries.runs (h : Carries width styled earlier p) (runs : List Run) :
    Carries width styled (earlier ++ runs.flatMap Run.reports)
      (p.afterAll (runs.flatMap Run.calls)) := by
  induction runs generalizing earlier p with
  | nil => rwa [List.flatMap_nil, List.append_nil]
  | cons r runs ih =>
      rw [List.flatMap_cons, List.flatMap_cons, afterAll_append, ← List.append_assoc]
      exact ih (h.run r)

/-! ## Main statement -/

section

variable {σ : Type} {sink : Sink σ} {view : σ → String}

/-- Whatever runs came before, a run has its own layout, but each of its percentages counts the
earlier reports too. It is the percentage of the run alone exactly if there are no reports to be
made, or the earlier ones together do not make up for what the division leaves of a part. -/
theorem written_after_runs (hsink : sink.Keeps view) (held : σ) (width : Nat) (styled : Bool)
    (runs : List Run) (r : Run) :
    let before := calls sink held (new width styled) (runs.flatMap Run.calls)
    let written := calls sink before.1 before.2.1 r.calls
    let earlier := runs.flatMap Run.reports
    let percent := fun n => share r.total (earlier.length + n)
    let rows := r.rows (Style.paint styled) (max width 1) percent
    view written.1 = view before.1 ++ r.text (Style.paint styled) (max width 1) percent
        (.ofList ((earlier ++ r.reports).map (·.outcome))) ∧
      r.progressText (Style.paint styled) (max width 1) percent =
        String.join (rows.map Row.text) ∧
      rows.map Row.percent = (r.counts (max width 1)).map percent ∧
      ∀ n ∈ r.counts (max width 1), (percent n = share r.total n ↔
        r.total = 0 ∨ 100 * n % r.total + 100 * earlier.length < r.total) := by
  intro before written earlier percent rows
  have hcarries := (carries_new width styled).runs runs
  rw [List.nil_append] at hcarries
  obtain ⟨-, hbefore, -⟩ := calls_of_keeps hsink held (new width styled) (runs.flatMap Run.calls)
  obtain ⟨hview, -, -⟩ := calls_of_keeps hsink before.1 before.2.1 r.calls
  refine ⟨?_, r.progressText_eq_rows _ _ _ (Nat.le_max_right width 1), r.percents_rows _ _ _,
    fun n _ => share_add_eq_iff r.total earlier.length n⟩
  have hpaint : ((new width styled).afterAll (runs.flatMap Run.calls)).paint =
      Style.paint styled := by
    funext style text
    show Style.paint _ style text = _
    rw [hcarries.styled_eq]
  rw [hview, show before.2.1 = (new width styled).afterAll (runs.flatMap Run.calls) from hbefore,
    join_textsOf_run hcarries.toReady r, hcarries.width_eq, hpaint, hcarries.made_eq,
    hcarries.tally_eq, foldl_record]

/-- A run of two reports out of five hundred, on lines of two glyphs, after a run of one report: one
report more is less than a part, so the percentages are those of the run alone. -/
theorem written_after_runs_two :
    let first : Run := ⟨1, [⟨.pass, "a", none⟩]⟩
    let second : Run := ⟨500, [⟨.fail, "b", none⟩, ⟨.pass, "c", none⟩]⟩
    let before := calls Sink.unlimited "" (new 2 false) ([first].flatMap Run.calls)
    Sink.unlimited.Keeps id ∧ 2 ∈ second.counts 2 ∧ share 500 (1 + 2) = share 500 2 ∧
      (calls Sink.unlimited before.1 before.2.1 second.calls).1 = before.1 ++
        "\nF. 0%\n   0%\n\n[FAILURE] b\n\n\n" ++
          "Passed 2 of 3 FAIL (FAILURE: 1, EXCEPTION: 0, INCOMPLETE: 0)\n" := by
  intro first second before
  have h := written_after_runs Sink.unlimited_keeps "" 2 false [first] second
  have hcount : 2 ∈ second.counts 2 := by decide
  refine ⟨Sink.unlimited_keeps, hcount, (h.2.2.2 2 hcount).2 (.inr (by decide)), h.1.trans ?_⟩
  decide +kernel

/-- Two runs of one report each: the second shows two hundred parts of a hundred, where the report
made in it is a hundred parts of those to be made. -/
theorem second_run_beyond_hundred :
    let r : Run := ⟨1, [⟨.pass, "a", none⟩]⟩
    let first := calls Sink.unlimited "" (new 1 false) r.calls
    let second := calls Sink.unlimited first.1 first.2.1 r.calls
    second.1 = first.1 ++ "\n. 200%\n  200%\n\n\nPassed 2 of 2 PASS\n" ∧
      first.1 ++ r.text (Style.paint false) 1 (share r.total) (.ofList [.pass, .pass]) =
        first.1 ++ "\n. 100%\n  100%\n\n\nPassed 2 of 2 PASS\n" ∧
      second.1 ≠
        first.1 ++ r.text (Style.paint false) 1 (share r.total) (.ofList [.pass, .pass]) := by
  decide +kernel

end

end Pinpoint.Progress
