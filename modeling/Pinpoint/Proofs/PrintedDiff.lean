import Pinpoint.Proofs.CommandOutcome

/-!
# Diffs read back

A printed diff is a text, and everything that it tells can be read from it again. `pieces_flatten`
says that lines with their ends, one behind the other, are cut where they meet, so the pieces of a
diff are its rows. Without their marks, those that stand for the text before make up this text, and
those that stand for the text after make up that one (`reconstructs_rows`); a last line without an
end is the only one to get one. `diff_reconstructs` says so of what a command prints.
-/

namespace Pinpoint

namespace Line

/-! ## Lines with their ends -/

/-- No character ends a line. -/
def Unbroken (content : List Char) : Prop := ∀ c ∈ content, c ≠ '\r' ∧ c ≠ '\n'

/-- A line with its end, and no other end in it. -/
inductive Whole : List Char → Prop where
  | feed {content : List Char} (h : Unbroken content) : Whole (content ++ ['\n'])
  | back {content : List Char} (h : Unbroken content) : Whole (content ++ ['\r'])
  | both {content : List Char} (h : Unbroken content) : Whole (content ++ ['\r', '\n'])

/-- A character that ends no line may stand before a text that no line ends in. -/
theorem Unbroken.cons {c : Char} {content : List Char} (hc : c ≠ '\r' ∧ c ≠ '\n')
    (h : Unbroken content) : Unbroken (c :: content) :=
  List.forall_mem_cons.2 ⟨hc, h⟩

/-- A character that ends no line may stand before a line with its end. -/
theorem Whole.cons {c : Char} {line : List Char} (hc : c ≠ '\r' ∧ c ≠ '\n') (h : Whole line) :
    Whole (c :: line) := by
  cases h with
  | feed h => exact .feed (h.cons hc)
  | back h => exact .back (h.cons hc)
  | both h => exact .both (h.cons hc)

/-- A line with its end is not empty. -/
theorem Whole.ne_nil {line : List Char} (h : Whole line) : line ≠ [] := by
  cases h <;> simp

/-- A line with its end has it. -/
theorem Whole.isEnded {line : List Char} (h : Whole line) : isEnded line = true := by
  cases h <;> simp [Line.isEnded]

/-- Characters that end no line are gathered into the line begun. -/
theorem piecesFrom_unbroken {content : List Char} (h : Unbroken content)
    (current rest : List Char) :
    piecesFrom current (content ++ rest) = piecesFrom (content.reverse ++ current) rest := by
  induction content generalizing current with
  | nil => rfl
  | cons c content ih =>
      obtain ⟨hc, hcontent⟩ := List.forall_mem_cons.1 h
      rw [List.cons_append, piecesFrom, if_neg (not_or.2 hc), ih hcontent, List.reverse_cons,
        List.append_assoc]
      · rfl
      · rintro rest' rfl
        exact absurd rfl hc.1

/-- A line with its end is cut off, unless a line feed behind it belongs to the end. -/
theorem pieces_whole {line rest : List Char} (h : Whole line) (hrest : rest.head? ≠ some '\n') :
    pieces (line ++ rest) = line :: pieces rest := by
  unfold pieces
  cases h with
  | @feed content h =>
      rw [List.append_assoc, piecesFrom_unbroken h]
      simp [piecesFrom]
  | @back content h =>
      rw [List.append_assoc, piecesFrom_unbroken h, List.singleton_append, piecesFrom]
      · simp
      · rintro rest' - rfl
        exact hrest rfl
  | @both content h =>
      rw [List.append_assoc, piecesFrom_unbroken h]
      simp [piecesFrom]

/-- Lines with their ends are cut where they meet. -/
theorem pieces_flatten {lines : List (List Char)}
    (h : ∀ line ∈ lines, Whole line ∧ line.head? ≠ some '\n') : pieces lines.flatten = lines := by
  induction lines with
  | nil => rfl
  | cons line lines ih =>
      obtain ⟨⟨hline, -⟩, hlines⟩ := List.forall_mem_cons.1 h
      have hrest : lines.flatten.head? ≠ some '\n' := by
        cases lines with
        | nil => simp
        | cons next lines =>
            obtain ⟨⟨hnext, hhead⟩, -⟩ := List.forall_mem_cons.1 hlines
            obtain ⟨c, content, rfl⟩ := List.exists_cons_of_ne_nil hnext.ne_nil
            exact hhead
      rw [List.flatten_cons, pieces_whole hline hrest, ih hlines]

/-- The pieces of a text are lines with their ends, and behind them at most one line without. -/
inductive Cut : List (List Char) → Prop where
  | whole {lines : List (List Char)} (h : ∀ line ∈ lines, Whole line) : Cut lines
  | unended {lines : List (List Char)} {content : List Char} (h : ∀ line ∈ lines, Whole line)
      (hne : content ≠ []) (hcontent : Unbroken content) : Cut (lines ++ [content])

/-- A line with its end may stand before a text that was cut. -/
theorem Cut.cons {line : List Char} {lines : List (List Char)} (hline : Whole line)
    (h : Cut lines) : Cut (line :: lines) := by
  cases h with
  | whole h => exact .whole (List.forall_mem_cons.2 ⟨hline, h⟩)
  | unended h hne hcontent =>
      exact .unended (List.forall_mem_cons.2 ⟨hline, h⟩) hne hcontent

/-- A text is cut behind the line begun, wherever the line began. -/
theorem cut_piecesFrom {current text : List Char} (h : Unbroken current) :
    Cut (piecesFrom current text) := by
  have hcurrent : Unbroken current.reverse := fun c hc => h c (List.mem_reverse.1 hc)
  fun_induction piecesFrom current text with
  | case1 current hempty => exact .whole (List.forall_mem_nil _)
  | case2 current hempty =>
      refine .unended (List.forall_mem_nil _) ?_ hcurrent
      simpa using hempty
  | case3 current rest ih =>
      have hline : Whole ('\n' :: '\r' :: current).reverse := by
        simpa using Whole.both hcurrent
      exact .cons hline (ih (List.forall_mem_nil _) (List.forall_mem_nil _))
  | case4 current c rest _ hc ih =>
      have hline : Whole (c :: current).reverse := by
        rw [List.reverse_cons]
        rcases hc with rfl | rfl
        · exact .back hcurrent
        · exact .feed hcurrent
      exact .cons hline (ih (List.forall_mem_nil _) (List.forall_mem_nil _))
  | case5 current c rest _ hc ih =>
      have hmore : Unbroken (c :: current) := h.cons (not_or.1 hc)
      exact ih hmore fun c hc => hmore c (List.mem_reverse.1 hc)

/-- A text is cut into lines with their ends, and at most one without. -/
theorem cut_pieces (text : List Char) : Cut (pieces text) :=
  cut_piecesFrom (List.forall_mem_nil _)

/-! ## Lines of a text with the last one ended -/

/-- A text that no line ends in has no end. -/
theorem isEnded_unbroken {content : List Char} (h : Unbroken content) :
    isEnded content = false := by
  cases hlast : content.getLast? with
  | none => simp [isEnded, hlast]
  | some c =>
      obtain ⟨hreturn, hfeed⟩ := h c (List.mem_of_getLast? hlast)
      simp [isEnded, hlast, hreturn, hfeed]

/-- Whether a text ends its line is up to the last part of it that is not empty. -/
theorem isEnded_append {content : List Char} (h : content ≠ []) (text : List Char) :
    isEnded (text ++ content) = isEnded content := by
  rw [isEnded, isEnded, List.getLast?_append, List.getLast?_eq_some_getLast h, Option.some_or]

end Line

namespace Diff

open Line

/-- A line without an end gets a line feed. -/
theorem ended_unbroken {content : List Char} (h : Unbroken content) :
    Row.ended content = content ++ ['\n'] := by
  rw [Row.ended, isEnded_unbroken h]
  rfl

/-- A line with its end stays as it is. -/
theorem ended_whole {line : List Char} (h : Whole line) : Row.ended line = line := by
  rw [Row.ended, h.isEnded]
  rfl

/-- The text with its last line ended. A text without lines has no last one. -/
def finished (text : List Char) : List Char := if text.isEmpty then [] else Row.ended text

/-- A text that is not empty is finished by the end of its last line. -/
theorem finished_of_ne_nil {text : List Char} (h : text ≠ []) : finished text = Row.ended text :=
  if_neg (by simpa using h)

/-- Each line that a text was cut into has its end when it is shown. -/
theorem whole_ended {lines : List (List Char)} (h : Cut lines) :
    ∀ line ∈ lines, Whole (Row.ended line) := by
  intro line hline
  cases h with
  | whole h =>
      rw [ended_whole (h line hline)]
      exact h line hline
  | unended h hne hcontent =>
      rcases List.mem_append.1 hline with hline | hlast
      · rw [ended_whole (h line hline)]
        exact h line hline
      · rw [List.mem_singleton.1 hlast, ended_unbroken hcontent]
        exact .feed hcontent

/-- Lines that have their ends make up the text that they were. -/
theorem flatMap_ended_whole {lines : List (List Char)} (h : ∀ line ∈ lines, Whole line) :
    lines.flatMap Row.ended = lines.flatten := by
  rw [List.flatMap_def, List.map_congr_left fun line hline => ended_whole (h line hline),
    List.map_id']

/-- Only the last line of a text can be without an end. -/
theorem flatMap_ended {lines : List (List Char)} (h : Cut lines) :
    lines.flatMap Row.ended = finished lines.flatten := by
  cases h with
  | whole h =>
      rw [flatMap_ended_whole h]
      rcases List.eq_nil_or_concat lines with rfl | ⟨front, line, rfl⟩
      · rfl
      · have hline : Whole line := h line (by simp)
        have htext : (front.concat line).flatten = front.flatten ++ line := by simp
        have hne : front.flatten ++ line ≠ [] := by simp [hline.ne_nil]
        rw [htext, finished_of_ne_nil hne, Row.ended, isEnded_append hline.ne_nil, hline.isEnded]
        rfl
  | @unended lines content h hne hcontent =>
      have htext : (lines ++ [content]).flatten = lines.flatten ++ content := by simp
      have hne' : lines.flatten ++ content ≠ [] := by simp [hne]
      rw [htext, finished_of_ne_nil hne', Row.ended, isEnded_append hne, isEnded_unbroken hcontent,
        List.flatMap_append, flatMap_ended_whole h, List.flatMap_singleton,
        ended_unbroken hcontent]
      exact (List.append_assoc ..).symm

/-- The lines of a text, each with an end, make up the finished text. -/
theorem flatMap_ended_pieces (text : List Char) :
    (Line.pieces text).flatMap Row.ended = finished text := by
  rw [flatMap_ended (cut_pieces text), flatten_pieces]

/-! ## Rows of a script -/

/-- The mark stands for lines that were there before. -/
def Mark.isBefore (mark : Mark) : Bool := mark != .add

/-- The mark stands for lines that are there afterwards. -/
def Mark.isAfter (mark : Mark) : Bool := mark != .remove

namespace Script

/-- The lines of the rows with some marks are those that the edits show of themselves. -/
theorem map_line_rows (shown : Mark → Bool) {view : Edit (List Char) → List (List Char)}
    (hview : ∀ e, view e = if shown e.mark then e.lines else []) (s : Script (List Char)) :
    (s.rows.filter fun r => shown r.mark).map Row.line = s.flatMap view := by
  induction s with
  | nil => rfl
  | cons e s ih =>
      show ((e.lines.map (Row.mk e.mark) ++ rows s).filter fun r => shown r.mark).map Row.line = _
      rw [List.filter_append, List.map_append, ih, List.flatMap_cons, hview]
      cases hmark : shown e.mark with
      | true => simp [hmark, List.filter_map, Function.comp_def]
      | false => simp [hmark, List.filter_map, Function.comp_def]

/-- The rows of a script that were there before hold the lines before it. -/
theorem before_rows (s : Script (List Char)) :
    (s.rows.filter fun r => r.mark.isBefore).map Row.line = s.before :=
  s.map_line_rows Mark.isBefore fun ⟨mark, lines⟩ => by cases mark <;> rfl

/-- The rows of a script that are there afterwards hold the lines after it. -/
theorem after_rows (s : Script (List Char)) :
    (s.rows.filter fun r => r.mark.isAfter).map Row.line = s.after :=
  s.map_line_rows Mark.isAfter fun ⟨mark, lines⟩ => by cases mark <;> rfl

end Script

/-- The rows of a diff that were there before hold the lines of the text before. -/
theorem before_rows (old new : String) :
    ((rows old new).filter fun r => r.mark.isBefore).map Row.line = Line.pieces old.toList := by
  rw [rows, Script.before_rows, Script.before_between]

/-- The rows of a diff that are there afterwards hold the lines of the text after. -/
theorem after_rows (old new : String) :
    ((rows old new).filter fun r => r.mark.isAfter).map Row.line = Line.pieces new.toList := by
  rw [rows, Script.after_rows, Script.after_between]

/-- A row keeps its line in one of the two texts. -/
theorem isBefore_or_isAfter (mark : Mark) : mark.isBefore = true ∨ mark.isAfter = true := by
  cases mark <;> decide

/-- Every row of a diff holds a line of one of the two texts. -/
theorem line_of_mem_rows {old new : String} {r : Row} (h : r ∈ rows old new) :
    r.line ∈ Line.pieces old.toList ∨ r.line ∈ Line.pieces new.toList := by
  rw [← before_rows old new, ← after_rows old new]
  refine (isBefore_or_isAfter r.mark).imp (fun hmark => ?_) fun hmark => ?_
  · exact List.mem_map_of_mem (List.mem_filter.2 ⟨h, hmark⟩)
  · exact List.mem_map_of_mem (List.mem_filter.2 ⟨h, hmark⟩)

/-- Every row is kept exactly if the texts are the same. -/
theorem rows_kept_iff (old new : String) :
    (∀ r ∈ rows old new, r.mark = .keep) ↔ old = new := by
  constructor
  · intro hkept
    have hall (shown : Mark → Bool) (hkeep : shown .keep = true) :
        ((rows old new).filter fun r => shown r.mark) = rows old new :=
      List.filter_eq_self.2 fun r hr => by rw [hkept r hr, hkeep]
    have hpieces : Line.pieces old.toList = Line.pieces new.toList := by
      rw [← before_rows old new, ← after_rows old new, hall _ rfl, hall _ rfl]
    rw [← String.toList_inj, ← flatten_pieces old.toList, hpieces, flatten_pieces]
  · rintro rfl r hr
    rw [rows, Script.between_self] at hr
    obtain ⟨e, he, hr⟩ := List.mem_flatMap.1 hr
    obtain ⟨line, -, rfl⟩ := List.mem_map.1 hr
    unfold Script.single at he
    split at he
    · cases he
    · exact congrArg Edit.mark (List.mem_singleton.1 he)

/-! ## The printed text -/

/-- A row as it is printed without styles. -/
def Row.shown (r : Row) : List Char := r.mark.sign :: Row.ended r.line

/-- A row is printed as its mark and its line. -/
theorem toList_print (r : Row) : (r.print false).toList = r.shown := by
  obtain ⟨mark, line⟩ := r
  cases mark <;> exact String.toList_ofList

/-- A row is shown as a line with its end, and never begins with a line feed. -/
theorem whole_shown {old new : String} {r : Row} (h : r ∈ rows old new) :
    Whole r.shown ∧ r.shown.head? ≠ some '\n' := by
  have hsign : (r.mark.sign ≠ '\r' ∧ r.mark.sign ≠ '\n') := by
    cases r.mark <;> decide
  have hline : Whole (Row.ended r.line) := by
    rcases line_of_mem_rows h with hold | hnew
    · exact whole_ended (cut_pieces _) _ hold
    · exact whole_ended (cut_pieces _) _ hnew
  refine ⟨hline.cons hsign, fun hhead => ?_⟩
  exact hsign.2 (Option.some.inj hhead)

/-- The pieces of what is printed below the header are the rows. -/
theorem pieces_shown (old new : String) :
    Line.pieces ((rows old new).map Row.shown).flatten = (rows old new).map Row.shown := by
  apply pieces_flatten
  intro line hline
  obtain ⟨r, hr, rfl⟩ := List.mem_map.1 hline
  exact whole_shown hr

/-- The pieces that begin with one of some signs, without it, one behind the other. -/
def unmarked (signs : List Char) (pieces : List (List Char)) : List Char :=
  (pieces.filter fun piece => piece.head?.any (signs.contains ·)).flatMap List.tail

/-- The rows with some signs, without these, make up the lines that they hold. -/
theorem unmarked_shown {signs : List Char} {shown : Mark → Bool}
    (h : ∀ mark : Mark, signs.contains mark.sign = shown mark) (shownRows : List Row) :
    unmarked signs (shownRows.map Row.shown) =
      ((shownRows.filter fun r => shown r.mark).map Row.line).flatMap Row.ended := by
  have hfilter : (fun piece : List Char => piece.head?.any (signs.contains ·)) ∘ Row.shown =
      fun r => shown r.mark := funext fun r => h r.mark
  rw [unmarked, List.filter_map, hfilter, List.flatMap_map, List.flatMap_map]
  rfl

/-- The pieces of a diff tell two texts. Behind a blank or a minus stand the lines of the old one,
behind a blank or a plus those of the new one, and the texts are the same exactly if there are only
blanks. -/
structure Reconstructs (old new : String) (pieces : List (List Char)) : Prop where
  marked : ∀ piece ∈ pieces, ∃ mark : Mark, piece.head? = some mark.sign
  before_eq : unmarked [' ', '-'] pieces = finished old.toList
  after_eq : unmarked [' ', '+'] pieces = finished new.toList
  unchanged_iff : (∀ piece ∈ pieces, piece.head? = some ' ') ↔ old = new

/-- The signs of a blank and of a minus are those of the lines before. -/
theorem contains_before (mark : Mark) : [' ', '-'].contains mark.sign = mark.isBefore := by
  cases mark <;> decide

/-- The signs of a blank and of a plus are those of the lines after. -/
theorem contains_after (mark : Mark) : [' ', '+'].contains mark.sign = mark.isAfter := by
  cases mark <;> decide

/-- A row that begins with a blank is one that was kept. -/
theorem sign_eq_blank_iff (mark : Mark) : some mark.sign = some ' ' ↔ mark = .keep := by
  cases mark <;> decide

/-- The rows of two texts reconstruct both of them. -/
theorem reconstructs_rows (old new : String) :
    Reconstructs old new ((rows old new).map Row.shown) where
  marked := by
    intro piece hpiece
    obtain ⟨r, -, rfl⟩ := List.mem_map.1 hpiece
    exact ⟨r.mark, rfl⟩
  before_eq := by
    rw [unmarked_shown contains_before, before_rows, flatMap_ended_pieces]
  after_eq := by
    rw [unmarked_shown contains_after, after_rows, flatMap_ended_pieces]
  unchanged_iff := by
    rw [List.forall_mem_map, ← rows_kept_iff]
    exact forall₂_congr fun r _ => sign_eq_blank_iff r.mark

/-- The two lines above the rows of a diff. -/
def heading (file : Path) : String :=
  "--- " ++ file.display ++ " (original)\n" ++ "+++ " ++ file.display ++ " (patched)\n"

/-- A diff without styles is its heading and its rows. -/
theorem print_eq (file : Path) (old new : String) :
    print false file old new =
      heading file ++ String.ofList ((rows old new).map Row.shown).flatten := by
  have hrows : String.join ((rows old new).map (Row.print false)) =
      String.ofList ((rows old new).map Row.shown).flatten := by
    rw [← String.toList_inj, String.toList_ofList, String.toList_join, List.flatMap_map,
      List.flatMap_def]
    exact congrArg List.flatten (List.map_congr_left fun r _ => toList_print r)
  show "--- " ++ file.display ++ " (original)" ++ "\n" ++
    ("+++ " ++ file.display ++ " (patched)" ++ "\n") ++ _ = _
  rw [hrows, ← String.toList_inj]
  simp [heading]

end Diff

/-! ## Main statement -/

namespace Command

/-- A patch that is to be shown as a diff, under accepted settings, prints that diff and succeeds.
-/
theorem diff_of_accepted {i : Invocation} {around : Surroundings} {s : Settings}
    {source file : Path} {tree : Span} (htask : i.task = .patch source file .diff)
    (hstyled : around.styled = false) (hs : Settings.Accepted around.read i.config s)
    (htree : around.read.Yields Span.ofJson? source tree) :
    (i.run around).code = 0 ∧
      (i.run around).output =
        Task.present false file tree (s.pipeline.patch file tree) .diff := by
  have hruns : (i.task.session around.styled s).Runs around.read [source]
      [Task.present false file tree (s.pipeline.patch file tree) .diff] (.ok true) := by
    rw [htask, hstyled]
    exact Task.patching_runs htree
  obtain ⟨hcode, houtput⟩ := Invocation.run_of_runs (Invocation.session_runs hs hruns)
  rw [String.join_cons, String.join_nil, String.append_empty] at houtput
  exact ⟨hcode, houtput⟩

/-- For any tree and any settings, what `patch` prints as a diff is two lines and then pieces that
tell the source before and after. It is what a command prints that asks for it without styles. -/
theorem diff_reconstructs (s : Settings) (file : Path) (tree : Span) :
    let patched := s.pipeline.patch file tree
    let printed := Task.present false file tree patched .diff
    (∃ body, printed = Diff.heading file ++ String.ofList body ∧
      Diff.Reconstructs tree.render patched.render (Line.pieces body)) ∧
    ∀ arguments (i : Invocation) (around : Surroundings) source,
      Invocation.ofArguments arguments = .ok i → i.task = .patch source file .diff →
      around.styled = false → Settings.Accepted around.read i.config s →
      around.read.Yields Span.ofJson? source tree →
      (respond arguments around).code = 0 ∧ (respond arguments around).output = printed := by
  intro patched printed
  constructor
  · refine ⟨_, Diff.print_eq file tree.render patched.render, ?_⟩
    rw [Diff.pieces_shown]
    exact Diff.reconstructs_rows tree.render patched.render
  · intro arguments i around source harguments htask hstyled hs htree
    rw [respond, harguments]
    exact diff_of_accepted htask hstyled hs htree

/-- The statement at a source where a literal takes the place of a marker and of the line feed
before it, and no line end is at the end. -/
theorem diff_reconstructs_joined :
    let arguments := ["patch", "-t", "t", "-p", "/d/f", "-d"].map fun argument =>
      argument.toUTF8.toList
    let source := Path.ofString "t"
    let file := Path.ofString "/d/f"
    let i : Invocation := ⟨none, 0, .patch source file .diff⟩
    let around : Surroundings :=
      ⟨fun _ => .ok "[\"code\", \"a\\r\\nx\\n\\n__DIR__\"]", false, false, none⟩
    let old := "a\r\nx\n\n__DIR__"
    let new := "a\r\nx\n'/d'"
    Invocation.ofArguments arguments = .ok i ∧ i.task = .patch source file .diff ∧
      around.styled = false ∧ Settings.Accepted around.read i.config .default ∧
      around.read.Yields Span.ofJson? source ⟨.code, old, true, []⟩ ∧
      (respond arguments around).code = 0 ∧
      ∃ body, (respond arguments around).output = Diff.heading file ++ String.ofList body ∧
        Diff.Reconstructs old new (Line.pieces body) := by
  intro arguments source file i around old new
  have harguments : Invocation.ofArguments arguments = .ok i := by decide +kernel
  have hs : Settings.Accepted around.read i.config .default := .default
  have htree : around.read.Yields Span.ofJson? source ⟨.code, old, true, []⟩ :=
    ⟨_, rfl, by decide +kernel⟩
  have hnew : (Settings.default.pipeline.patch file ⟨.code, old, true, []⟩).render = new := by
    decide +kernel
  obtain ⟨⟨body, hprinted, hbody⟩, hcommand⟩ :=
    diff_reconstructs .default file ⟨.code, old, true, []⟩
  obtain ⟨hcode, houtput⟩ := hcommand arguments i around source harguments rfl rfl hs htree
  refine ⟨harguments, rfl, rfl, hs, htree, hcode, body, houtput.trans hprinted, ?_⟩
  rw [← hnew]
  exact hbody

end Command

end Pinpoint
