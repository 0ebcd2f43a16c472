import Pinpoint.Proofs.AcceptedSettings
import Pinpoint.Span.Load

/-!
# What sessions read and print

`Session.Runs` says of a session which files it reads, which texts it prints and what it comes to,
and has a rule for each step. With the rules a session is followed from step to step, here for those
that load settings and trees: what decides is whether a file lacks what is to be read from it or
yields it.
-/

namespace Pinpoint

namespace Session

variable {α β : Type} {source : TextSource}

/-- With the files of `source` a session reads `files`, prints `texts` and comes to `result`. -/
structure Runs (source : TextSource) (s : Session α) (files : List Path) (texts : List String)
    (result : α) : Prop where
  files_eq : s.files source = files
  texts_eq : s.texts source = texts
  result_eq : s.result source = result

/-- A session that does nothing reads no file and prints no text. -/
theorem runs_pure (a : α) : (pure a : Session α).Runs source [] [] a := ⟨rfl, rfl, rfl⟩

/-- Reading a file reads that file alone, and comes to what the source has under it. -/
theorem runs_read (file : Path) : (read file).Runs source [file] [] (source file) :=
  ⟨rfl, rfl, rfl⟩

/-- Printing a text prints that text alone, and reads no file. -/
theorem runs_print (text : String) : (print text).Runs source [] [text] () := ⟨rfl, rfl, rfl⟩

/-- Telling of events neither reads a file nor prints a text. -/
theorem runs_tell (events : List Event) : (tell events).Runs source [] [] () :=
  ⟨files_tell source events, texts_tell source events, rfl⟩

/-- A session and the one that goes on from its result read the files of both, and print the texts
of both, in this order. -/
theorem Runs.bind {s : Session α} {f : α → Session β} {files more : List Path}
    {texts others : List String} {a : α} {b : β} (hs : s.Runs source files texts a)
    (hf : (f a).Runs source more others b) :
    (s >>= f).Runs source (files ++ more) (texts ++ others) b := by
  obtain ⟨hfiles, htexts, hresult⟩ := hs
  refine ⟨?_, ?_, ?_⟩
  · rw [files_bind, hresult, hfiles, hf.files_eq]
  · rw [texts_bind, hresult, htexts, hf.texts_eq]
  · rw [result_bind, hresult, hf.result_eq]

/-- The session reads `files`, and fails before it prints anything. -/
def Fails {ε : Type} (source : TextSource) (s : Session (Except ε α)) (files : List Path) : Prop :=
  ∃ why, s.Runs source files [] (.error why)

end Session

/-! ## Files that yield a value -/

namespace TextSource

variable {ε α : Type} {read : TextSource} {decode : String → Except ε α} {file : Path}

/-- A file can be read, and its text stands for a value. -/
def Yields (read : TextSource) (decode : String → Except ε α) (file : Path) (a : α) : Prop :=
  ∃ source, read file = .ok source ∧ decode source = .ok a

/-- A file cannot be read, or its text stands for no value. -/
def Lacks (read : TextSource) (decode : String → Except ε α) (file : Path) : Prop :=
  (∃ why, read file = .error why) ∨
    ∃ source why, read file = .ok source ∧ decode source = .error why

/-- Either a file lacks what is to be read from it, or it yields something. -/
theorem lacks_or_yields (read : TextSource) (decode : String → Except ε α) (file : Path) :
    read.Lacks decode file ∨ ∃ a, read.Yields decode file a := by
  cases hread : read file with
  | error why => exact .inl (.inl ⟨why, hread⟩)
  | ok source =>
      cases hdecode : decode source with
      | error why => exact .inl (.inr ⟨source, why, hread, hdecode⟩)
      | ok a => exact .inr ⟨a, source, hread, hdecode⟩

/-- A file yields one thing at most. -/
theorem Yields.unique {a b : α} (ha : read.Yields decode file a) (hb : read.Yields decode file b) :
    a = b := by
  obtain ⟨source, hread, ha⟩ := ha
  obtain ⟨other, hother, hb⟩ := hb
  rw [hread] at hother
  cases hother
  rw [ha] at hb
  cases hb
  rfl

/-- A file that yields something does not lack it. -/
theorem Yields.not_lacks {a : α} (h : read.Yields decode file a) : ¬read.Lacks decode file := by
  obtain ⟨source, hread, hdecode⟩ := h
  rintro (⟨why, herror⟩ | ⟨other, why, hother, herror⟩)
  · rw [hread] at herror
    cases herror
  · rw [hread] at hother
    cases hother
    rw [hdecode] at herror
    cases herror

end TextSource

/-! ## Trees -/

namespace Span

variable {read : TextSource} {file : Path}

/-- Loading settings reads their file, prints nothing, and comes to what the content of the file
says. -/
theorem loading_runs (read : TextSource) (file : Path) :
    (loading file).Runs read [file] [] (ofContent file (read file)) :=
  (Session.runs_read file).bind (Session.runs_pure _)

/-- A file that yields a tree has a content that stands for it. -/
theorem ofContent_of_yields {t : Span} (h : read.Yields ofJson? file t) :
    ofContent file (read file) = .ok t := by
  obtain ⟨source, hread, hjson⟩ := h
  rw [hread, ofContent, hjson]
  rfl

/-- A file that lacks a tree has a content that is an error. -/
theorem ofContent_of_lacks (h : read.Lacks ofJson? file) :
    ∃ why, ofContent file (read file) = .error why := by
  rcases h with ⟨why, hread⟩ | ⟨source, why, hread, hjson⟩
  · exact ⟨.unreadable file why, by rw [hread, ofContent]⟩
  · refine ⟨.malformed (some file) why, ?_⟩
    rw [hread, ofContent, hjson]
    rfl

end Span

/-! ## Settings -/

namespace Settings

variable {read : TextSource} {config : Option Path} {file : Path} {s : Settings}

/-- The settings of a file are accepted if they have no issue. If no file is given, the default
settings are. -/
inductive Accepted (read : TextSource) : Option Path → Settings → Prop where
  | default : Accepted read none default
  | file {file : Path} {s : Settings} (hyields : read.Yields ofToml? file s)
      (hvalid : s.issues = []) : Accepted read (some file) s

/-- The settings of a file cannot be had, or have an issue. -/
def Refused (read : TextSource) (file : Path) : Prop :=
  read.Lacks ofToml? file ∨ ∃ s : Settings, read.Yields ofToml? file s ∧ s.issues ≠ []

/-- Either the settings of a given file are refused, or some settings are accepted, read from the
given file or those that stand for no file. -/
theorem refused_or_accepted (read : TextSource) (config : Option Path) :
    (∃ file, config = some file ∧ Refused read file) ∨ ∃ s, Accepted read config s := by
  cases config with
  | none => exact .inr ⟨default, .default⟩
  | some file =>
      rcases read.lacks_or_yields ofToml? file with hlacks | ⟨s, hyields⟩
      · exact .inl ⟨file, rfl, .inl hlacks⟩
      · by_cases hvalid : s.issues = []
        · exact .inr ⟨s, .file hyields hvalid⟩
        · exact .inl ⟨file, rfl, .inr ⟨s, hyields, hvalid⟩⟩

/-- Settings that were accepted from a file are not refused there. -/
theorem Accepted.not_refused (h : Accepted read (some file) s) : ¬Refused read file := by
  obtain _ | ⟨hyields, hvalid⟩ := h
  rintro (hlacks | ⟨other, hother, hissues⟩)
  · exact hyields.not_lacks hlacks
  · rw [hother.unique hyields] at hissues
    exact hissues hvalid

/-- Loading a tree reads its file, prints nothing, and comes to what the content of the file says.
-/
theorem loading_runs (read : TextSource) (file : Path) :
    (loading file).Runs read [file] [] (ofContent file (read file)) :=
  (Session.runs_read file).bind ((Session.runs_tell _).bind (Session.runs_pure _))

/-- A file gives settings exactly if it yields them and they have no issue. -/
theorem ofContent_eq_ok_iff (read : TextSource) (file : Path) (s : Settings) :
    ofContent file (read file) = .ok s ↔ read.Yields ofToml? file s ∧ s.issues = [] := by
  unfold TextSource.Yields
  cases hread : read file with
  | error why => simp [ofContent]
  | ok source =>
      have hmap : ofContent file (.ok source) = .ok s ↔ ofString source = .ok s := by
        rw [ofContent]
        cases ofString source <;> simp [Except.mapError]
      rw [hmap, ofString_eq_ok_iff]
      simp

/-- Loading accepted settings reads their file, if one is given, and comes to them. -/
theorem loadingIfGiven_runs (h : Accepted read config s) :
    (loadingIfGiven config).Runs read config.toList [] (.ok s) := by
  cases h with
  | default => exact Session.runs_pure _
  | @file file s hyields hvalid =>
      have hruns := loading_runs read file
      rwa [(ofContent_eq_ok_iff read file s).2 ⟨hyields, hvalid⟩] at hruns

/-- Loading settings from a file that is refused reads this file alone, and fails. -/
theorem loadingIfGiven_fails (h : Refused read file) :
    (loadingIfGiven (some file)).Fails read [file] := by
  have hruns := loading_runs read file
  cases hcontent : ofContent file (read file) with
  | error why => exact ⟨why, hcontent ▸ hruns⟩
  | ok s =>
      obtain ⟨hyields, hvalid⟩ := (ofContent_eq_ok_iff read file s).1 hcontent
      exact absurd h (Accepted.file hyields hvalid).not_refused

end Settings

end Pinpoint
