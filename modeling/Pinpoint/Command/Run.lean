import Pinpoint.Command.Arguments
import Pinpoint.Diff.Print
import Pinpoint.Log.Filter
import Pinpoint.Progress
import Pinpoint.Settings.Load
import Pinpoint.Span.Load

/-!
# Running a command

`Invocation.session` is what a command does, step by step: settings are read first, and nothing is
printed before all that the command reads has been read. `Invocation.run` is what it leaves behind
when the files that it may read are known.
-/

namespace Pinpoint.Command

/-- Why a command fails. -/
inductive Failure where
  | settings (why : SettingsError)
  | tree (why : TreeError)
  | unknownClass (name : String)
  | unreadableReports (file : Path) (why : ReadError)
  | malformedReports (file : Path) (why : Json.Fault)
deriving Repr, DecidableEq

namespace Failure

/-- Words the failure, and behind it the reason that lies under it. -/
def message : Failure → String
  | settings why => why.message ++ ": " ++ why.cause
  | tree why => why.message ++ ": " ++ why.cause
  | unknownClass name => "no file registered for class " ++ name
  | unreadableReports file why =>
    "failed to read outcomes from " ++ file.display ++ ": " ++ why.message
  | malformedReports file why =>
    "malformed outcome records in " ++ file.display ++ ": " ++ why.reason

end Failure

/-- What a run depends on beside its arguments. -/
structure Surroundings where
  /-- The files that can be read. -/
  read : TextSource
  /-- Whether styles are shown. -/
  styled : Bool
  /-- Whether styles are shown in the log. -/
  styledLog : Bool
  /-- The log filter that is asked for. -/
  logFilter : Option String

/-- What a command comes to: why it fails, or whether it is a success. -/
abbrev Verdict := Except Failure Bool

namespace Task

/-- Shows the tree that was read from a file, as it was and as it is now. -/
def present (styled : Bool) (file : Path) (before after : Span) : Form → String
  | .source => after.render
  | .json => after.toPrettyJson ++ "\n"
  | .diff => Diff.print styled file before.render after.render

/-- Tells of the pipeline that settings ask for. -/
def pipelineEvent (p : Pipeline) : Event :=
  ⟨.debug, "jit_patch", "built pipeline", [("patchers", p.display)]⟩

/-- Reads a tree and runs the pipeline on it. -/
def patching (styled : Bool) (s : Settings) (tree file : Path) (form : Form) :
    Session Verdict := do
  match ← Span.loading tree with
  | .error why => return .error (.tree why)
  | .ok before =>
    Session.tell (pipelineEvent s.pipeline :: s.pipeline.events file before)
    Session.print (present styled file before (s.pipeline.patch file before) form)
    return .ok true

/-- Tells the file for a class: the one proposed for it, after the pipeline. -/
def locating (s : Settings) (name : String) (file : Path) : Session Verdict := do
  match s.pipeline.resolve? (ClassIndex.ofList [(name, file)]).find? name with
  | none => return .error (.unknownClass name)
  | some located =>
    Session.print (located.display ++ "\n")
    return .ok true

/-- The calls that show the progress of reports from beginning to end. -/
def progressCalls (reports : List Report) : List Progress.Call :=
  .begin reports.length :: (reports.map .report ++ [.finish])

/-- Shows the progress of reports. Gives what is shown, and the tally. -/
def progress (styled : Bool) (d : Display) (reports : List Report) : String × Tally :=
  let start := Progress.new d.width (d.colors && styled)
  let (output, final, _) := Progress.calls Sink.unlimited "" start (progressCalls reports)
  (output, final.tally)

/-- Reads reports and shows their progress. It is a success if their tally is. -/
def reporting (styled : Bool) (s : Settings) (input : Path) : Session Verdict := do
  match ← Session.read input with
  | .error why => return .error (.unreadableReports input why)
  | .ok source =>
    match Report.listOfJson? source with
    | .error why => return .error (.malformedReports input why)
    | .ok reports =>
      let (output, tally) := progress styled s.display reports
      Session.print output
      return .ok tally.isSuccess

/-- Does a task under some settings. -/
def session (styled : Bool) (s : Settings) : Task → Session Verdict
  | .patch tree file form => patching styled s tree file form
  | .locate name file => locating s name file
  | .report input => reporting styled s input

end Task

/-- What a run leaves behind. -/
structure Response where
  /-- Zero for success, one for failure, two for misuse. -/
  code : Nat
  output : String
  /-- The lines of the log. -/
  log : List String
  /-- What went wrong. -/
  complaint : String
deriving Repr, DecidableEq

namespace Response

/-- The log, and what went wrong below it. -/
def diagnostics (r : Response) : String := String.join (r.log.map (· ++ "\n")) ++ r.complaint

end Response

namespace Verdict

/-- The exit code that a verdict stands for. -/
def code : Verdict → Nat
  | .ok true => 0
  | .ok false => 1
  | .error _ => 1

/-- Tells of a failure, if there is one. -/
def complaint (styled : Bool) : Verdict → String
  | .ok _ => ""
  | .error why => Style.paint styled (some .boldRed) "error:" ++ " " ++ why.message ++ "\n"

end Verdict

namespace Invocation

/-- Reads the settings and does the task. -/
def session (i : Invocation) (styled : Bool) : Session Verdict := do
  match ← Settings.loadingIfGiven i.config with
  | .error why => return .error (.settings why)
  | .ok s => i.task.session styled s

/-- The filter that a verbosity stands for. -/
def defaultFilter : Nat → LogFilter
  | 0 => .upTo .warn
  | 1 => .upTo .debug
  | _ => .upTo .trace

/-- The filter of a run: the one that is asked for if it can be read, and otherwise the one that the
verbosity stands for. -/
def filter (i : Invocation) (asked : Option String) : LogFilter :=
  (asked.bind LogFilter.ofString?).getD (defaultFilter i.verbosity)

/-- Does what an invocation asks for. -/
def run (i : Invocation) (around : Surroundings) : Response :=
  let s := i.session around.styled
  let verdict := s.result around.read
  let log := (i.filter around.logFilter).log around.styledLog (s.events around.read)
  ⟨Verdict.code verdict, String.join (s.texts around.read), log,
    Verdict.complaint around.styled verdict⟩

end Invocation

/-- The name and the version of the program. -/
def banner : String := "jit-patch 0.1.0\n"

/-- How the program is called. -/
def usage : String :=
  String.join (["Usage: jit-patch [--config PATH] [--verbose] COMMAND", "", "Commands:",
    "  patch --tree PATH --path PATH [--json | --diff]", "  locate --class NAME --file PATH",
    "  report --input PATH", "  help [COMMAND]"].map (· ++ "\n"))

/-- What a command line leads to that asks for no command to be run. -/
def Halt.response : Halt → Response
  | .help => ⟨0, usage, [], ""⟩
  | .version => ⟨0, banner, [], ""⟩
  | .misuse => ⟨2, "", [], usage⟩

/-- Does what the arguments ask for. -/
def respond (arguments : List (List UInt8)) (around : Surroundings) : Response :=
  match Invocation.ofArguments arguments with
  | .ok invocation => invocation.run around
  | .error halt => halt.response

end Pinpoint.Command
