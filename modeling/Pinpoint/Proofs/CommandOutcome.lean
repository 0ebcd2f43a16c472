import Pinpoint.Command.Run
import Pinpoint.Proofs.ProgressRuns
import Pinpoint.Proofs.SessionRuns
import Pinpoint.Proofs.TallyText

/-!
# What comes of a command

A command reads its settings first, and the file of its task only if they are accepted. If either
is refused it prints nothing and fails. Otherwise `respond_of_invocation` says what comes of it: a
tree is patched, a class is located, and reports are a success exactly if none of them failed.
-/

namespace Pinpoint

/-- A pipeline resolves a class of an index that holds this class alone to the file that its
patchers make of the one it has there. -/
theorem Pipeline.resolve?_proposed (p : Pipeline) (name : String) (file : Path) :
    p.resolve? (ClassIndex.ofList [(name, file)]).find? name =
      some (p.locate (ClassIndex.ofList [(name, file)]).find? name file) := by
  have hfind : (ClassIndex.ofList [(name, file)]).find? name = some file := by
    show (ClassIndex.empty.insert name file).find? name = _
    rw [ClassIndex.find?_insert, if_pos rfl]
  rw [resolve?, hfind]
  rfl

namespace Command

namespace Task

variable {read : TextSource} {styled : Bool} {s : Settings}

/-! ## Tasks -/

/-- The file that a task reads. -/
def source? : Task → Option Path
  | .patch tree _ _ => some tree
  | .locate _ _ => none
  | .report input => some input

/-- The file of a task cannot be had as what the task reads from it. -/
def Refused (read : TextSource) : Task → Prop
  | .patch tree _ _ => read.Lacks Span.ofJson? tree
  | .locate _ _ => False
  | .report input => read.Lacks Report.listOfJson? input

/-- Patching a file that yields a tree reads this file, and prints the tree before and after in the
form asked for. -/
theorem patching_runs {tree file : Path} {form : Form} {before : Span}
    (h : read.Yields Span.ofJson? tree before) :
    (patching styled s tree file form).Runs read [tree]
      [present styled file before (s.pipeline.patch file before) form] (.ok true) := by
  refine (Span.loading_runs read tree).bind ?_
  rw [Span.ofContent_of_yields h]
  exact (Session.runs_tell _).bind ((Session.runs_print _).bind (Session.runs_pure _))

/-- Patching a file that lacks a tree reads this file, and fails. -/
theorem patching_fails {tree file : Path} {form : Form} (h : read.Lacks Span.ofJson? tree) :
    (patching styled s tree file form).Fails read [tree] := by
  obtain ⟨why, hcontent⟩ := Span.ofContent_of_lacks h
  refine ⟨.tree why, (Span.loading_runs read tree).bind ?_⟩
  rw [hcontent]
  exact Session.runs_pure _

/-- Locating a class reads no file, prints one text and succeeds. -/
theorem locating_runs (s : Settings) (name : String) (file : Path) :
    ∃ text, (locating s name file).Runs read [] [text] (.ok true) := by
  rw [locating, s.pipeline.resolve?_proposed name file]
  exact ⟨_, (Session.runs_print _).bind (Session.runs_pure _)⟩

/-- The progress of reports ends with their tally. -/
theorem tally_progress (styled : Bool) (d : Display) (reports : List Report) :
    (progress styled d reports).2 = .ofList (reports.map (·.outcome)) := by
  let start := Progress.new d.width (d.colors && styled)
  let run : Progress.Run := ⟨reports.length, reports⟩
  show (Progress.calls Sink.unlimited "" start run.calls).2.1.tally = _
  rw [(Progress.calls_of_keeps Sink.unlimited_keeps "" start run.calls).2.1]
  exact ((Progress.carries_new d.width (d.colors && styled)).run run).tally_eq

/-- Reporting on a file that yields reports reads this file, prints their progress, and succeeds if
their tally does. -/
theorem reporting_runs {input : Path} {reports : List Report}
    (h : read.Yields Report.listOfJson? input reports) :
    (reporting styled s input).Runs read [input] [(progress styled s.display reports).1]
      (.ok (Tally.ofList (reports.map (·.outcome))).isSuccess) := by
  obtain ⟨source, hread, hjson⟩ := h
  refine (Session.runs_read input).bind ?_
  rw [hread, ← tally_progress styled s.display reports]
  dsimp only
  rw [hjson]
  exact (Session.runs_print _).bind (Session.runs_pure _)

/-- Reporting on a file that lacks reports reads this file, and fails. -/
theorem reporting_fails {input : Path} (h : read.Lacks Report.listOfJson? input) :
    (reporting styled s input).Fails read [input] := by
  rcases h with ⟨why, hread⟩ | ⟨source, why, hread, hjson⟩
  · refine ⟨.unreadableReports input why, (Session.runs_read input).bind ?_⟩
    rw [hread]
    exact Session.runs_pure _
  · refine ⟨.malformedReports input why, (Session.runs_read input).bind ?_⟩
    rw [hread]
    dsimp only
    rw [hjson]
    exact Session.runs_pure _

/-- A task reads its file, whatever comes of it. -/
theorem files_session (read : TextSource) (styled : Bool) (s : Settings) (t : Task) :
    (t.session styled s).files read = t.source?.toList := by
  cases t with
  | patch tree file form =>
      rcases read.lacks_or_yields Span.ofJson? tree with hlacks | ⟨before, hyields⟩
      · obtain ⟨why, hruns⟩ := patching_fails hlacks
        exact hruns.files_eq
      · exact (patching_runs hyields).files_eq
  | locate name file =>
      obtain ⟨text, hruns⟩ := locating_runs s name file
      exact hruns.files_eq
  | report input =>
      rcases read.lacks_or_yields Report.listOfJson? input with hlacks | ⟨reports, hyields⟩
      · obtain ⟨why, hruns⟩ := reporting_fails hlacks
        exact hruns.files_eq
      · exact (reporting_runs hyields).files_eq

/-- A task whose file is refused reads this file, and fails. -/
theorem session_fails (styled : Bool) (s : Settings) {t : Task} (h : t.Refused read) :
    (t.session styled s).Fails read t.source?.toList := by
  cases t with
  | patch tree file form => exact patching_fails h
  | locate name file => exact h.elim
  | report input => exact reporting_fails h

/-- What is to come of a task under some settings, if its file can be had. -/
def Done (read : TextSource) (s : Settings) (r : Response) : Task → Prop
  | .patch tree file form => ∃ before, read.Yields Span.ofJson? tree before ∧ r.code = 0 ∧
      (form = .source → r.output = (s.pipeline.patch file before).render)
  | .locate _ _ => r.code = 0
  | .report input => ∃ reports, read.Yields Report.listOfJson? input reports ∧
      (r.code = 0 ↔ ∀ report ∈ reports, report.outcome ≠ .fail ∧ report.outcome ≠ .exception)

end Task

/-- Exit code 0 stands for success. -/
theorem Verdict.code_eq_zero_iff (success : Bool) :
    Verdict.code (.ok success) = 0 ↔ success = true := by
  cases success <;> decide

/-- A verdict is told by zero and one alone. -/
theorem Verdict.code_le_one (v : Verdict) : v.code ≤ 1 := by
  match v with
  | .ok true => exact Nat.zero_le 1
  | .ok false | .error _ => exact Nat.le_refl 1

namespace Invocation

variable {i : Invocation} {around : Surroundings} {s : Settings}

/-! ## Invocations -/

/-- The settings or the file of the task cannot be had. -/
def Refused (read : TextSource) (i : Invocation) : Prop :=
  (∃ file, i.config = some file ∧ Settings.Refused read file) ∨ i.task.Refused read

/-- Under accepted settings the task is done after they were read. -/
theorem session_runs {read : TextSource} {styled : Bool} {files : List Path} {texts : List String}
    {verdict : Verdict} (hs : Settings.Accepted read i.config s)
    (ht : (i.task.session styled s).Runs read files texts verdict) :
    (i.session styled).Runs read (i.config.toList ++ files) texts verdict :=
  (Settings.loadingIfGiven_runs hs).bind ht

/-- Under refused settings nothing else is read. -/
theorem session_fails {read : TextSource} (styled : Bool) {file : Path}
    (hconfig : i.config = some file) (h : Settings.Refused read file) :
    (i.session styled).Fails read [file] := by
  obtain ⟨why, hruns⟩ := Settings.loadingIfGiven_fails h
  refine ⟨.settings why, ?_⟩
  rw [session, hconfig]
  exact hruns.bind (Session.runs_pure _)

/-- An invocation leaves behind what its session prints, and the code of its verdict. -/
theorem run_of_runs {files : List Path} {texts : List String} {verdict : Verdict}
    (h : (i.session around.styled).Runs around.read files texts verdict) :
    (i.run around).code = Verdict.code verdict ∧ (i.run around).output = String.join texts := by
  rw [run, h.result_eq, h.texts_eq]
  exact ⟨rfl, rfl⟩

/-- An invocation that is refused fails, whichever files it reads. -/
theorem session_of_refused {read : TextSource} (styled : Bool) (h : i.Refused read) :
    ∃ files, (i.session styled).Fails read files := by
  rcases h with ⟨file, hconfig, hrefused⟩ | htask
  · exact ⟨[file], session_fails styled hconfig hrefused⟩
  · rcases Settings.refused_or_accepted read i.config with
      ⟨file, hconfig, hrefused⟩ | ⟨s, haccepted⟩
    · exact ⟨[file], session_fails styled hconfig hrefused⟩
    · obtain ⟨why, hruns⟩ := Task.session_fails styled s htask
      exact ⟨_, why, session_runs haccepted hruns⟩

/-- The run of a refused invocation ends with exit code 1, and prints nothing. -/
theorem run_of_refused (h : i.Refused around.read) :
    (i.run around).code = 1 ∧ (i.run around).output = "" := by
  obtain ⟨files, why, hruns⟩ := session_of_refused around.styled h
  exact run_of_runs hruns

/-- The run of an invocation with accepted settings does its task, if the file of this one is not
refused. -/
theorem done_of_accepted (hs : Settings.Accepted around.read i.config s)
    (ht : ¬i.task.Refused around.read) : i.task.Done around.read s (i.run around) := by
  obtain ⟨config, verbosity, task⟩ := i
  cases task with
  | patch tree file form =>
      obtain ⟨before, hyields⟩ :=
        (around.read.lacks_or_yields Span.ofJson? tree).resolve_left ht
      obtain ⟨hcode, houtput⟩ := run_of_runs (session_runs hs (Task.patching_runs hyields))
      refine ⟨before, hyields, hcode, fun hform => ?_⟩
      rw [houtput, hform, String.join_cons, String.join_nil, String.append_empty]
      rfl
  | locate name file =>
      obtain ⟨text, hruns⟩ := Task.locating_runs s name file
      exact (run_of_runs (session_runs hs hruns)).1
  | report input =>
      obtain ⟨reports, hyields⟩ :=
        (around.read.lacks_or_yields Report.listOfJson? input).resolve_left ht
      obtain ⟨hcode, -⟩ := run_of_runs (session_runs hs (Task.reporting_runs hyields))
      refine ⟨reports, hyields, ?_⟩
      rw [hcode, Verdict.code_eq_zero_iff, Tally.isSuccess_ofList, List.forall_mem_map]

end Invocation

/-! ## Main statement -/

/-- What comes of arguments that ask for an invocation. Its settings are read first, and the file of
its task is read only if they are accepted. If the settings or the file are refused, it fails and
prints nothing. Otherwise the task is done under the settings. -/
theorem respond_of_invocation {arguments : List (List UInt8)} {i : Invocation}
    (h : Invocation.ofArguments arguments = .ok i) (around : Surroundings) :
    (∀ file, i.config = some file → Settings.Refused around.read file →
        (i.session around.styled).files around.read = [file]) ∧
      (∀ s, Settings.Accepted around.read i.config s →
        (i.session around.styled).files around.read =
          i.config.toList ++ i.task.source?.toList) ∧
      (i.Refused around.read →
        (respond arguments around).code = 1 ∧ (respond arguments around).output = "") ∧
      (¬i.Refused around.read → ∃ s, Settings.Accepted around.read i.config s ∧
        i.task.Done around.read s (respond arguments around)) := by
  have hrespond : respond arguments around = i.run around := by rw [respond, h]
  rw [hrespond]
  refine ⟨fun file hconfig hrefused => ?_, fun s haccepted => ?_, Invocation.run_of_refused,
    fun hrefused => ?_⟩
  · obtain ⟨why, hruns⟩ := Invocation.session_fails around.styled hconfig hrefused
    exact hruns.files_eq
  · have hsettings := Settings.loadingIfGiven_runs haccepted
    rw [Invocation.session, Session.files_bind, hsettings.files_eq, hsettings.result_eq]
    exact congrArg (i.config.toList ++ ·)
      (Task.files_session around.read around.styled s i.task)
  · rcases Settings.refused_or_accepted around.read i.config with
      hsettings | ⟨s, haccepted⟩
    · exact absurd (Or.inl hsettings) hrefused
    · exact ⟨s, haccepted, Invocation.done_of_accepted haccepted fun htask =>
        hrefused (.inr htask)⟩

/-- The statement at a report of two outcomes that fail nothing, at one with a failure, and under
settings with an issue. -/
theorem respond_of_invocation_report :
    let arguments := ["-c", "c", "report", "-i", "o"].map fun argument => argument.toUTF8.toList
    let config := Path.ofString "c"
    let input := Path.ofString "o"
    let i : Invocation := ⟨some config, 0, .report input⟩
    let around (settings reports : String) : Surroundings :=
      ⟨fun file => .ok (if file = config then settings else reports), false, false, none⟩
    let calm := "[[\"skip\", \"a\", null], [\"incomplete\", \"b\", null]]"
    let failing := "[[\"pass\", \"a\"], \x7b\"description\": \"b\", \"outcome\": \"fail\"\x7d]"
    let settings := "[reporter]\nwidth = 2\n"
    let wide := around settings calm
    let failed := around settings failing
    let narrow := around "[reporter]\nwidth = 0\n" calm
    Invocation.ofArguments arguments = .ok i ∧
      (i.session false).files wide.read = [config, input] ∧
      (respond arguments wide).code = 0 ∧
      (i.session false).files failed.read = [config, input] ∧
      (respond arguments failed).code = 1 ∧
      (i.session false).files narrow.read = [config] ∧
      (respond arguments narrow).code = 1 ∧ (respond arguments narrow).output = "" := by
  intro arguments config input i around calm failing settings wide failed narrow
  have hi : Invocation.ofArguments arguments = .ok i := by decide +kernel
  have haccepted (reports : String) : Settings.Accepted (around settings reports).read i.config
      ⟨Settings.defaultPatchers, ⟨2, true⟩⟩ :=
    .file ⟨settings, congrArg Except.ok (if_pos rfl), by decide +kernel⟩ (by decide +kernel)
  have hrefused : Settings.Refused narrow.read config :=
    .inr ⟨⟨Settings.defaultPatchers, ⟨0, true⟩⟩, ⟨_, rfl, by decide +kernel⟩, by decide +kernel⟩
  have hcalm : wide.read.Yields Report.listOfJson? input
      [⟨.skip, "a", none⟩, ⟨.incomplete, "b", none⟩] := ⟨_, rfl, by decide +kernel⟩
  have hfailing : failed.read.Yields Report.listOfJson? input
      [⟨.pass, "a", none⟩, ⟨.fail, "b", none⟩] := ⟨_, rfl, by decide +kernel⟩
  obtain ⟨-, hwide, -, hdone⟩ := respond_of_invocation hi wide
  obtain ⟨-, hfailed, -, hdone'⟩ := respond_of_invocation hi failed
  obtain ⟨hfile, -, hfails, -⟩ := respond_of_invocation hi narrow
  -- Neither the settings nor the reports are refused where both can be had.
  have hgood {text : String} {reports : List Report}
      (hreports : (around settings text).read.Yields Report.listOfJson? input reports) :
      ¬i.Refused (around settings text).read := by
    rintro (⟨file, hconfig, hlacks⟩ | hlacks)
    · cases hconfig
      exact (haccepted text).not_refused hlacks
    · exact hreports.not_lacks hlacks
  refine ⟨hi, hwide _ (haccepted calm), ?_, hfailed _ (haccepted failing), ?_,
    hfile config rfl hrefused, hfails (.inl ⟨config, rfl, hrefused⟩)⟩
  · obtain ⟨s, -, reports, hyields, hcode⟩ := hdone (hgood hcalm)
    rw [hcode, hyields.unique hcalm]
    decide
  · obtain ⟨s, -, reports, hyields, hcode⟩ := hdone' (hgood hfailing)
    rw [hyields.unique hfailing] at hcode
    have hnonzero : (respond arguments failed).code ≠ 0 := mt hcode.1 (by decide)
    have hle : (respond arguments failed).code ≤ 1 := by
      rw [respond, hi]
      exact Verdict.code_le_one _
    omega

end Command

end Pinpoint
