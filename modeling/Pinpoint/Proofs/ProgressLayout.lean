import Pinpoint.Proofs.WorkSteps

/-!
# The layout of a run

The text of a run is told apart from how it is made: `Run.text` lists the marks with a percentage
behind every full line, the blanks that fill the last line, the blocks of the notable reports and
the tally. `join_textsOf_run` says that a run writes this text from any state in which a line
begins, `progressText_eq_rows` that its progress is a list of lines of one width, and
`written_layout` puts them together for a run from the beginning.
-/

namespace Pinpoint.Progress

/-! ## Percentages -/

/-- How many of a hundred parts `made` of `total` reports are; none of none is all. -/
def share (total made : Nat) : Nat := if total = 0 then 100 else 100 * made / total

/-- The percentage of a run is the share of its reports that were made. -/
theorem percent_eq_share (p : Progress) : p.percent = share p.total p.made := by
  unfold percent share
  rw [Nat.mul_comm]

/-- A share does not fall as more reports are made. -/
theorem share_le_share (total : Nat) {m n : Nat} (h : m ≤ n) : share total m ≤ share total n := by
  unfold share
  split
  · exact Nat.le_refl 100
  · exact Nat.div_le_div_right (Nat.mul_le_mul_left 100 h)

/-- A share of no more than all is a hundred at most. -/
theorem share_le_hundred {total made : Nat} (h : made ≤ total) : share total made ≤ 100 := by
  unfold share
  split
  · exact Nat.le_refl 100
  · exact Nat.div_le_of_le_mul (Nat.mul_comm total 100 ▸ Nat.mul_le_mul_left 100 h)

/-- Only all reports are a hundred parts of a hundred. -/
theorem eq_of_share_eq_hundred {total made : Nat} (h : made ≤ total)
    (hshare : share total made = 100) : made = total := by
  unfold share at hshare
  split at hshare
  · omega
  · next hzero =>
      have hle := (Nat.le_div_iff_mul_le (Nat.pos_of_ne_zero hzero)).1 (Nat.le_of_eq hshare.symm)
      omega

/-! ## The text of a run -/

/-- A run that is to have `total` reports, and the reports that are made in it. -/
structure Run where
  total : Nat
  reports : List Report

namespace Run

/-- The calls of a run. -/
def calls (r : Run) : List Call := .begin r.total :: (r.reports.map .report ++ [.finish])

/-- The number of reports that are made. -/
def size (r : Run) : Nat := r.reports.length

end Run

/-- Cells in order, with numbers from `first` on, and a line end behind each number that the width
divides. `percent` gives the percentage there. -/
def cellsText (width : Nat) (percent : Nat → Nat) (first : Nat) (cells : List String) : String :=
  String.join ((cells.zipIdx first).map fun (cell, i) =>
    if i % width = 0 then cell ++ lineEnd (percent i) else cell)

section

variable (paint : Option Style → String → String)

/-- The mark of a report. -/
def mark (r : Report) : String := paint r.outcome.style? r.outcome.glyph

/-- What is told of a report: its label and description, and the lines of its message indented. -/
def block (r : Report) : String :=
  "\n" ++ paint r.outcome.style? r.outcome.label ++ " " ++ r.description ++
    String.join (((r.message.map Line.split).getD []).map ("\n    " ++ ·)) ++ "\n"

/-- The last line. -/
def verdict (t : Tally) : String :=
  paint (some (if t.isSuccess then .green else .red)) t.display

namespace Run

variable (width : Nat) (percent : Nat → Nat) (r : Run)

/-- The blanks that fill the last line. -/
def blanks : List String := List.replicate (width - r.size % width) " "

/-- The marks of a run and the blanks behind them, with their line ends. -/
def progressText : String :=
  cellsText width percent 1 (r.reports.map (mark paint)) ++
    (String.join (r.blanks width) ++ lineEnd (percent r.size))

/-- The text of a run, with the tally that stands below it. -/
def text (t : Tally) : String :=
  "\n" ++ r.progressText paint width percent ++
    String.join ((r.reports.filter (·.outcome.isNotable)).map (block paint)) ++
    "\n\n" ++ verdict paint t ++ "\n"

end Run

end

/-! ## Lines of one width -/

/-- A line of progress. -/
structure Row where
  cells : List String
  percent : Nat

def Row.text (row : Row) : String := String.join row.cells ++ lineEnd row.percent

namespace Run

variable (paint : Option Style → String → String) (width : Nat) (percent : Nat → Nat) (r : Run)

/-- How many reports were made when each line ended. -/
def counts : List Nat :=
  (List.range (r.size / width + 1)).map fun i => min ((i + 1) * width) r.size

/-- The lines of a run: the cells a width at a time. -/
def rows : List Row :=
  (List.range (r.size / width + 1)).map fun i =>
    ⟨((r.reports.map (mark paint) ++ r.blanks width).drop (i * width)).take width,
      percent (min ((i + 1) * width) r.size)⟩

end Run

section

variable (width : Nat) (percent : Nat → Nat) (first : Nat)

/-- No cells have no text. -/
theorem cellsText_nil : cellsText width percent first [] = "" := rfl

/-- The first cell has a line end behind it if its number ends a line, and the others follow. -/
theorem cellsText_cons (cell : String) (cells : List String) :
    cellsText width percent first (cell :: cells) =
      (if first % width = 0 then cell ++ lineEnd (percent first) else cell) ++
        cellsText width percent (first + 1) cells := by
  unfold cellsText
  rw [List.zipIdx_cons, List.map_cons, String.join_cons]

/-- The text of cells is told part by part, and the numbers go on from one to the next. -/
theorem cellsText_append (cells more : List String) :
    cellsText width percent first (cells ++ more) =
      cellsText width percent first cells ++
        cellsText width percent (first + cells.length) more := by
  unfold cellsText
  rw [List.zipIdx_append, List.map_append, String.join_append]

/-- Only the percentages at the numbers of the cells count. -/
theorem cellsText_congr {percent other : Nat → Nat} (cells : List String)
    (h : ∀ i, i < first + cells.length → percent i = other i) :
    cellsText width percent first cells = cellsText width other first cells := by
  induction cells generalizing first with
  | nil => rfl
  | cons cell cells ih =>
      rw [List.length_cons] at h
      rw [cellsText_cons, cellsText_cons, h first (by omega), ih (first + 1)]
      intro i hi
      exact h i (by omega)

/-- Cells up to the next number that the width divides make up the rest of a line. -/
theorem cellsText_line (k j : Nat) (cells : List String) (hcells : cells ≠ [])
    (hj : j + cells.length = width) :
    cellsText width percent (k * width + j + 1) cells =
      String.join cells ++ lineEnd (percent ((k + 1) * width)) := by
  induction cells generalizing j with
  | nil => exact absurd rfl hcells
  | cons cell cells ih =>
      rw [List.length_cons] at hj
      rw [cellsText_cons, String.join_cons, Nat.add_assoc, Nat.mul_add_mod_self_right]
      cases cells with
      | nil =>
          have hwidth : j + 1 = width := hj
          rw [hwidth, Nat.mod_self, if_pos rfl, cellsText_nil, Nat.add_mul, Nat.one_mul,
            String.append_empty, String.join_nil, String.append_empty]
      | cons next rest =>
          rw [List.length_cons] at hj
          have hrest := ih (j + 1) (List.cons_ne_nil next rest) (by rw [List.length_cons]; omega)
          rw [Nat.mod_eq_of_lt (by omega), if_neg (by omega)]
          rw [← Nat.add_assoc] at hrest ⊢
          rw [hrest, String.append_assoc]

/-- Cells that fill a number of lines, a width at a time. -/
theorem cellsText_eq_rows (hwidth : 0 < width) (k lines : Nat) (cells : List String)
    (hcells : cells.length = lines * width) :
    cellsText width percent (k * width + 1) cells =
      String.join ((List.range lines).map fun i =>
        String.join ((cells.drop (i * width)).take width) ++
          lineEnd (percent ((k + i + 1) * width))) := by
  induction lines generalizing k cells with
  | zero =>
      rw [Nat.zero_mul] at hcells
      rw [List.eq_nil_of_length_eq_zero hcells]
      rfl
  | succ lines ih =>
      rw [Nat.add_mul, Nat.one_mul] at hcells
      -- The first line takes a width of cells, and the lines behind it count on from the next one.
      have htake : (cells.take width).length = width := by
        rw [List.length_take]
        omega
      have hline := cellsText_line width percent k 0 (cells.take width)
        (List.ne_nil_of_length_pos (htake.symm ▸ hwidth)) (by omega)
      have hrest := ih (k + 1) (cells.drop width) (by rw [List.length_drop]; omega)
      have hnumber : k * width + 1 + width = (k + 1) * width + 1 := by
        rw [Nat.add_mul, Nat.one_mul]
        omega
      rw [Nat.add_zero] at hline
      have hfirst : String.join ((cells.drop (0 * width)).take width) ++
          lineEnd (percent ((k + 0 + 1) * width)) =
            String.join (cells.take width) ++ lineEnd (percent ((k + 1) * width)) := by
        rw [Nat.zero_mul, List.drop_zero, Nat.add_zero]
      have hsplit := cellsText_append width percent (k * width + 1) (cells.take width)
        (cells.drop width)
      rw [List.take_append_drop, htake, hline, hnumber, hrest] at hsplit
      rw [hsplit, List.range_succ_eq_map, List.map_cons, String.join_cons, List.map_map, hfirst]
      refine congrArg (_ ++ String.join ·) (List.map_congr_left fun i _ => ?_)
      show _ = String.join ((cells.drop ((i + 1) * width)).take width) ++
        lineEnd (percent ((k + (i + 1) + 1) * width))
      rw [List.drop_drop, Nat.add_mul i, Nat.one_mul, Nat.add_comm width, Nat.add_assoc k,
        Nat.add_comm 1 i]

end

namespace Run

variable (paint : Option Style → String → String) (width : Nat) (percent : Nat → Nat) (r : Run)

/-- The blanks of a run are those that its last line lacks. -/
theorem length_blanks : (r.blanks width).length = width - r.size % width :=
  List.length_replicate

/-- Marks and blanks together fill the lines of a run. -/
theorem length_cells (hwidth : 0 < width) :
    (r.reports.map (mark paint) ++ r.blanks width).length = (r.size / width + 1) * width := by
  have hmod := Nat.mod_lt r.size hwidth
  have hdiv := Nat.div_add_mod' r.size width
  rw [List.length_append, List.length_map, length_blanks, Nat.add_mul, Nat.one_mul,
    show r.reports.length = r.size from rfl]
  omega

/-- While the blanks are written no report is made, so the percentage behind them is that of all
reports. -/
theorem cellsText_blanks (hwidth : 0 < width) :
    cellsText width (fun i => percent (min i r.size)) (r.size + 1) (r.blanks width) =
      String.join (r.blanks width) ++ lineEnd (percent r.size) := by
  have hmod := Nat.mod_lt r.size hwidth
  have hdiv := Nat.div_add_mod' r.size width
  have hline := cellsText_line width (fun i => percent (min i r.size)) (r.size / width)
    (r.size % width) (r.blanks width)
    (List.ne_nil_of_length_pos (by rw [length_blanks]; omega)) (by rw [length_blanks]; omega)
  have hlast : min ((r.size / width + 1) * width) r.size = r.size := by
    refine Nat.min_eq_right ?_
    rw [Nat.add_mul, Nat.one_mul]
    omega
  rw [hdiv, hlast] at hline
  exact hline

/-- The progress of a run is its lines, one below the other. -/
theorem progressText_eq_rows (hwidth : 0 < width) :
    r.progressText paint width percent =
      String.join ((r.rows paint width percent).map Row.text) := by
  have hmarks : cellsText width percent 1 (r.reports.map (mark paint)) =
      cellsText width (fun i => percent (min i r.size)) 1 (r.reports.map (mark paint)) := by
    refine cellsText_congr width 1 _ fun i hi => ?_
    rw [List.length_map, Nat.add_comm] at hi
    exact congrArg percent (Nat.min_eq_left (Nat.le_of_lt_succ hi)).symm
  have hnumber : r.size + 1 = 1 + (r.reports.map (mark paint)).length := by
    rw [List.length_map, Nat.add_comm]
    rfl
  have hrows := cellsText_eq_rows width (fun i => percent (min i r.size)) hwidth 0
    (r.size / width + 1) (r.reports.map (mark paint) ++ r.blanks width)
    (r.length_cells paint width hwidth)
  rw [Nat.zero_mul, Nat.zero_add] at hrows
  rw [progressText, hmarks, ← r.cellsText_blanks width percent hwidth, hnumber,
    ← cellsText_append, hrows, rows, List.map_map]
  refine congrArg String.join (List.map_congr_left fun i _ => ?_)
  rw [Nat.zero_add]
  rfl

/-- A run has a line for each full one of its marks, and one for the rest. -/
theorem length_rows : (r.rows paint width percent).length = r.size / width + 1 := by
  rw [rows, List.length_map, List.length_range]

/-- The percentages of a run, line by line. -/
theorem percents_rows : (r.rows paint width percent).map Row.percent =
    (r.counts width).map percent := by
  rw [rows, counts, List.map_map, List.map_map]
  rfl

/-- Every line of a run has as many cells as the width says. -/
theorem length_cells_of_mem_rows (hwidth : 0 < width) {row : Row}
    (h : row ∈ r.rows paint width percent) : row.cells.length = width := by
  obtain ⟨i, hi, rfl⟩ := List.mem_map.1 h
  have hcells := r.length_cells paint width hwidth
  have hle : (i + 1) * width ≤ (r.size / width + 1) * width :=
    Nat.mul_le_mul_right width (List.mem_range.1 hi)
  rw [Nat.add_mul, Nat.one_mul] at hle
  show (List.take width (List.drop (i * width) _)).length = width
  rw [List.length_take, List.length_drop, hcells]
  omega

/-- The counts behind the lines do not fall. -/
theorem pairwise_counts : (r.counts width).Pairwise (· ≤ ·) := by
  refine List.Pairwise.map _ (fun i j (hij : i < j) => ?_) List.pairwise_lt_range
  have hle : (i + 1) * width ≤ (j + 1) * width := Nat.mul_le_mul_right width (by omega)
  omega

/-- Behind no line more reports were made than the run has. -/
theorem le_size_of_mem_counts {n : Nat} (h : n ∈ r.counts width) : n ≤ r.size := by
  obtain ⟨i, -, rfl⟩ := List.mem_map.1 h
  exact Nat.min_le_right _ _

end Run

/-! ## What the calls of a run write -/

/-- The state after some reports, all of them shown. -/
def notedAll (p : Progress) (reports : List Report) : Progress :=
  { p with
    column := p.column + reports.length
    made := p.made + reports.length
    tally := reports.foldl (fun t r => t.record r.outcome) p.tally
    pending := (reports.filter (·.outcome.isNotable)).reverse ++ p.pending }

/-- A report noted before the others is noted with them. -/
theorem notedAll_noted (p : Progress) (r : Report) (reports : List Report) :
    (p.noted r).notedAll reports = p.notedAll (r :: reports) := by
  unfold noted notedAll
  cases h : r.outcome.isNotable with
  | true => simp [h, count, advance, Nat.add_assoc, Nat.add_comm 1]
  | false => simp [h, count, advance, Nat.add_assoc, Nat.add_comm 1]

/-- Calls that make reports note them all. -/
theorem afterAll_reports (p : Progress) (reports : List Report) :
    p.afterAll (reports.map .report) = p.notedAll reports := by
  induction reports generalizing p with
  | nil => rfl
  | cons r reports ih =>
      show ((p.report r).final).afterAll (reports.map .report) = p.notedAll (r :: reports)
      rw [(p.steps_report r).2, ih, notedAll_noted]

/-- Reports write their marks. If the state stands `k` marks behind the beginning of a line, so do
the numbers of the marks. -/
theorem join_textsOf_reports (p : Progress) (reports : List Report) (earlier k : Nat)
    (hcolumn : p.column % p.width = k % p.width) (hmade : p.made = earlier + k) :
    String.join (p.textsOf (reports.map .report)) =
      cellsText p.width (fun i => share p.total (earlier + i)) (k + 1)
        (reports.map (mark p.paint)) := by
  induction reports generalizing p k with
  | nil => rfl
  | cons r reports ih =>
      have hnext : (p.column + 1) % p.width = (k + 1) % p.width := by
        rw [Nat.add_mod, hcolumn, ← Nat.add_mod]
      have hrest := ih (p.noted r) (k + 1) hnext
        (show p.made + 1 = earlier + (k + 1) by rw [hmade, Nat.add_assoc])
      have hpercent : (p.count r).percent = share p.total (earlier + (k + 1)) := by
        rw [percent_eq_share]
        show share p.total (p.made + 1) = _
        rw [hmade, Nat.add_assoc]
      show String.join ((p.report r).texts ++ (p.report r).final.textsOf (reports.map .report)) = _
      rw [Work.texts_eq, (p.steps_report r).1, (p.steps_report r).2, String.join_append, hrest,
        List.map_cons, cellsText_cons, glyphSteps, hpercent, List.map_cons, String.join_cons]
      show mark p.paint r ++ String.join ((if (p.column + 1) % p.width = 0 then
        [(lineEnd (share p.total (earlier + (k + 1))), (p.count r).advance 1)] else []).map
          Prod.fst) ++ _ = _
      rw [hnext]
      split
      · rw [List.map_singleton, String.join_cons, String.join_nil, String.append_empty]
        rfl
      · rw [List.map_nil, String.join_nil, String.append_empty]
        rfl

/-- The texts that tell of a report make up its block. -/
theorem join_detail (p : Progress) (r : Report) :
    String.join (p.detail r) = block p.paint r := by
  rw [detail, String.join_append, String.join_cons, block]
  rfl

/-- The details of a state tell of what is pending, the first report first. -/
theorem join_details (p : Progress) :
    String.join p.details = String.join (p.pending.reverse.map (block p.paint)) := by
  unfold details
  induction p.pending.reverse with
  | nil => rfl
  | cons r rest ih =>
      rw [List.flatMap_cons, String.join_append, ih, join_detail, List.map_cons, String.join_cons]

/-- The texts that close a run make up its verdict. -/
theorem join_closing (p : Progress) :
    String.join p.closing = "\n\n" ++ verdict p.paint p.tally ++ "\n" := by
  rw [closing, String.join_cons, String.join_cons, String.join_nil, String.append_empty,
    String.append_assoc]
  rfl

/-- The blanks that are padded end a line. -/
theorem advance_padding_mod (p : Progress) : (p.column + p.padding) % p.width = 0 := by
  have hmod := Nat.mod_lt p.column p.width_pos
  have hsplit := Nat.div_add_mod' p.column p.width
  have hfull : p.column + p.padding = (p.column / p.width + 1) * p.width := by
    unfold padding
    rw [Nat.add_mul, Nat.one_mul]
    omega
  rw [hfull, Nat.mul_mod_left]

/-- A run notes its reports under its total, and ends. -/
theorem afterAll_run (p : Progress) (r : Run) :
    p.afterAll r.calls = (({ p with total := r.total } : Progress).notedAll r.reports).ended := by
  show ({ p with total := r.total } : Progress).afterAll (r.reports.map .report ++ [.finish]) = _
  rw [afterAll_append, afterAll_reports]
  exact (steps_finish _).2

/-- A state in which a run may begin: a line begins, and nothing is pending. -/
structure Ready (p : Progress) : Prop where
  column_mod : p.column % p.width = 0
  pending_eq : p.pending = []

/-- A new state is one in which a run may begin. -/
theorem ready_new (width : Nat) (styled : Bool) : Ready (new width styled) :=
  ⟨Nat.zero_mod _, rfl⟩

/-- A run ends in a state in which the next may begin. -/
theorem ready_ended (p : Progress) : Ready p.ended := ⟨p.advance_padding_mod, rfl⟩

/-- What a run writes, whatever was written before it: its text, with percentages that count the
reports made before. -/
theorem join_textsOf_run {p : Progress} (hp : Ready p) (r : Run) :
    String.join (p.textsOf r.calls) =
      r.text p.paint p.width (fun i => share r.total (p.made + i))
        (r.reports.foldl (fun t r => t.record r.outcome) p.tally) := by
  let begun : Progress := { p with total := r.total }
  have hmarks := join_textsOf_reports begun r.reports p.made 0
    (hp.column_mod.trans (Nat.zero_mod _).symm) rfl
  have hpadding : (begun.notedAll r.reports).padding = p.width - r.size % p.width := by
    show p.width - (p.column + r.size) % p.width = _
    rw [Nat.add_mod, hp.column_mod, Nat.zero_add, Nat.mod_mod]
  have hdetails : String.join (begun.notedAll r.reports).details =
      String.join ((r.reports.filter (·.outcome.isNotable)).map (block p.paint)) := by
    have hpending : (begun.notedAll r.reports).pending.reverse =
        r.reports.filter (·.outcome.isNotable) := by
      show ((r.reports.filter (·.outcome.isNotable)).reverse ++ p.pending).reverse = _
      rw [hp.pending_eq, List.append_nil, List.reverse_reverse]
    rw [join_details, hpending]
    rfl
  show String.join (["\n"] ++ begun.textsOf (r.reports.map .report ++ [.finish])) = _
  rw [textsOf_append, afterAll_reports]
  show String.join (["\n"] ++ (begun.textsOf (r.reports.map .report) ++
    ((begun.notedAll r.reports).finish.texts ++ []))) = _
  rw [texts_finish, hpadding, percent_eq_share]
  simp only [String.join_append, String.join_cons, String.join_nil, String.append_empty, hmarks,
    hdetails, join_closing, Run.text, Run.progressText, String.append_assoc]
  rfl

/-! ## Main statement -/

/-- A new state without styles paints nothing. -/
theorem paint_new (width : Nat) : (new width false).paint = fun _ text => text := by
  funext style text
  cases style with
  | none => rfl
  | some style => rfl

/-- A new state has the width that it is given, if there is room for a glyph. -/
theorem width_new {width : Nat} (h : 1 ≤ width) (styled : Bool) :
    (new width styled).width = width := Nat.max_eq_left h

/-- In a new state no report was made. -/
theorem made_new (width : Nat) (styled : Bool) : (new width styled).made = 0 := rfl

/-- Cells of one character each. -/
theorem length_join {cells : List String} (h : ∀ cell ∈ cells, cell.length = 1) :
    (String.join cells).length = cells.length := by
  induction cells with
  | nil => rfl
  | cons cell rest ih =>
      rw [String.join_cons, String.length_append, ih fun other hother =>
        h other (List.mem_cons_of_mem cell hother), h cell List.mem_cons_self, List.length_cons,
        Nat.add_comm]

/-- Without styles a mark is one character, and so is a blank. -/
theorem Run.length_of_mem_cells (r : Run) (width : Nat) (percent : Nat → Nat) {row : Row}
    (h : row ∈ r.rows (fun _ text => text) width percent) :
    ∀ cell ∈ row.cells, cell.length = 1 := by
  obtain ⟨i, -, rfl⟩ := List.mem_map.1 h
  intro cell hcell
  rcases List.mem_append.1 (List.mem_of_mem_drop (List.mem_of_mem_take hcell)) with hmark | hblank
  · obtain ⟨report, -, rfl⟩ := List.mem_map.1 hmark
    show report.outcome.glyph.length = 1
    cases report.outcome <;> rfl
  · rw [(List.mem_replicate.1 hblank).2]
    rfl

section

variable {σ : Type} {sink : Sink σ} {view : σ → String}

/-- A run without styles, on a sink that refuses nothing, has the text that its layout says. It is
laid out in lines of the width of the run, the last one of them filled with blanks, and if no more
reports are made than there are to be, the percentages rise to a hundred at the end of all. -/
theorem written_layout (hsink : sink.Keeps view) (held : σ) {width : Nat} (hwidth : 1 ≤ width)
    (r : Run) :
    let plain : Option Style → String → String := fun _ text => text
    let written := calls sink held (new width false) r.calls
    let rows := r.rows plain width (share r.total)
    view written.1 = view held ++
        r.text plain width (share r.total) (.ofList (r.reports.map (·.outcome))) ∧
      written.2.2 = r.calls.map (fun _ => true) ∧
      (1 ≤ (r.blanks width).length ∧ (r.blanks width).length ≤ width) ∧
      r.progressText plain width (share r.total) = String.join (rows.map Row.text) ∧
      rows.length = r.size / width + 1 ∧
      (∀ row ∈ rows, (String.join row.cells).length = width) ∧
      (r.size ≤ r.total →
        (rows.map Row.percent).Pairwise (· ≤ ·) ∧ (∀ row ∈ rows, row.percent ≤ 100) ∧
          ∀ i row, rows[i]? = some row → row.percent = 100 →
            min ((i + 1) * width) r.size = r.total) := by
  intro plain written rows
  have hrun := join_textsOf_run (ready_new width false) r
  obtain ⟨hview, -, htaken⟩ := calls_of_keeps hsink held (new width false) r.calls
  have hpercents := r.percents_rows plain width (share r.total)
  refine ⟨?_, htaken, ?_, r.progressText_eq_rows plain width _ hwidth,
    r.length_rows plain width _, fun row hrow => ?_, fun hsize => ⟨?_, fun row hrow => ?_, ?_⟩⟩
  · rw [hview, hrun, paint_new, width_new hwidth, made_new, Tally.ofList, List.foldl_map]
    simp only [Nat.zero_add]
    rfl
  · have hmod := Nat.mod_lt r.size hwidth
    rw [Run.length_blanks]
    omega
  · rw [length_join (r.length_of_mem_cells width _ hrow),
      r.length_cells_of_mem_rows plain width _ hwidth hrow]
  · rw [hpercents]
    exact (r.pairwise_counts width).map _ fun _ _ => share_le_share r.total
  · have hmem := List.mem_map_of_mem (f := Row.percent) hrow
    rw [hpercents] at hmem
    obtain ⟨n, hn, hpercent⟩ := List.mem_map.1 hmem
    rw [← hpercent]
    exact share_le_hundred (Nat.le_trans (r.le_size_of_mem_counts width hn) hsize)
  · intro i row hrow hhundred
    obtain ⟨j, hj, rfl⟩ := Option.map_eq_some_iff.1 (List.getElem?_map.symm.trans hrow)
    obtain ⟨hlt, hget⟩ := List.getElem?_eq_some_iff.1 hj
    obtain rfl : i = j := (List.getElem_range hlt).symm.trans hget
    exact eq_of_share_eq_hundred (Nat.le_trans (Nat.min_le_right _ _) hsize) hhundred

/-- The statement at three reports out of three, on lines of two glyphs. -/
theorem written_layout_three :
    let r : Run := ⟨3, [⟨.pass, "a", none⟩, ⟨.fail, "b", some "c\nd"⟩, ⟨.skip, "e", none⟩]⟩
    let rows := r.rows (fun _ text => text) 2 (share r.total)
    Sink.unlimited.Keeps id ∧ 1 ≤ 2 ∧ r.size ≤ r.total ∧ rows.length = 2 ∧
      (∀ row ∈ rows, (String.join row.cells).length = 2 ∧ row.percent ≤ 100) ∧
      (calls Sink.unlimited "" (new 2 false) r.calls).1 =
        "\n.F 66%\nS  100%\n\n[FAILURE] b\n    c\n    d\n\n\n" ++
          "Passed 1 of 2 FAIL (FAILURE: 1, EXCEPTION: 0, INCOMPLETE: 0), 1 skipped\n" := by
  intro r rows
  have hwidth : 1 ≤ 2 := by decide
  have hsize : r.size ≤ r.total := by decide
  obtain ⟨htext, -, -, -, hlength, hcells, hpercents⟩ :=
    written_layout Sink.unlimited_keeps "" hwidth r
  refine ⟨Sink.unlimited_keeps, hwidth, hsize, hlength.trans (by decide), fun row hrow => ?_,
    htext.trans ?_⟩
  · exact ⟨hcells row hrow, (hpercents hsize).2.1 row hrow⟩
  · decide +kernel

end

end Pinpoint.Progress
