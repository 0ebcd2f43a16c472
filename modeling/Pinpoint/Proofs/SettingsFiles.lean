import Pinpoint.Proofs.SessionRuns

/-!
# Settings in files

Settings in a file are the settings of its text. `load_eq_ok_iff` says so of settings that are
accepted. An error is the error of the text, told of the file (`ToldOf`): kind and reason stay, and
`message_of_toldOf` says that the message stays as well, but for the name of the file before its
first colon. `load_agrees` puts this together, for any way to read a file and for the bytes that
files hold.
-/

namespace Pinpoint

/-! ## Bytes that are a text -/

/-- Bytes are read as a text exactly if they are the bytes of this text. -/
theorem Utf8.fromUTF8?_eq_some_iff (bytes : ByteArray) (text : String) :
    String.fromUTF8? bytes = some text ↔ bytes = text.toUTF8 := by
  constructor
  · intro h
    unfold String.fromUTF8? at h
    split at h
    · cases h
      rfl
    · cases h
  · rintro rfl
    exact dif_pos text.isValidUTF8

/-- A file is read as a text exactly if its bytes are those of the text. -/
theorem Files.read?_eq_ok_iff (f : Files) (file : Path) (text : String) :
    f.read? file = .ok text ↔ f.bytes? file = .ok text.toUTF8 := by
  cases hbytes : f.bytes? file with
  | error why => simp [read?, hbytes, bind, Except.bind]
  | ok bytes =>
      rw [Except.ok.injEq, ← Utf8.fromUTF8?_eq_some_iff]
      cases htext : String.fromUTF8? bytes with
      | none => simp [read?, hbytes, htext, bind, Except.bind]
      | some found => simp [read?, hbytes, htext, bind, Except.bind]

namespace SettingsError

/-- The file that an error names. -/
def file? : SettingsError → Option Path
  | unreadable file _ => some file
  | malformed file _ => file
  | invalid file _ => file

/-- An error of a text, and the same error told of the file that the text came from. -/
inductive ToldOf (file : Path) : SettingsError → SettingsError → Prop where
  | malformed (why : Toml.Fault) : ToldOf file (malformed none why) (malformed (some file) why)
  | invalid (issues : List Issue) : ToldOf file (invalid none issues) (invalid (some file) issues)

/-! ## Messages -/

/-- Puts words into a text, before its first colon. -/
def beforeColon (words text : String) : String :=
  String.ofList (text.toList.takeWhile (· != ':') ++ words.toList ++
    text.toList.dropWhile (· != ':'))

/-- Words before the first colon stand behind what is before it. -/
theorem beforeColon_append {first : String} (h : ':' ∉ first.toList) (words rest : String) :
    beforeColon words (first ++ ": " ++ rest) = first ++ words ++ ": " ++ rest := by
  have hfirst : ∀ c ∈ first.toList, (c != ':') = true := by
    intro c hc
    simp only [bne_iff_ne]
    rintro rfl
    exact h hc
  rw [← String.toList_inj, beforeColon, String.toList_ofList]
  simp only [String.toList_append, List.append_assoc]
  rw [List.takeWhile_append_of_pos hfirst, List.dropWhile_append_of_pos hfirst]
  simp

/-- The message of an error that is told of a file is that of the error without it, with the file put
before the first colon. -/
theorem message_of_toldOf {file : Path} {inner e : SettingsError} (h : ToldOf file inner e) :
    e.message = beforeColon (" (" ++ file.display ++ ")") inner.message := by
  cases h with
  | malformed why => exact (beforeColon_append (by decide) _ _).symm
  | invalid issues => exact (beforeColon_append (by decide) _ _).symm

end SettingsError

namespace Settings

/-! ## Errors of a text and of a file -/

/-- A text that is no document, and no other, is malformed, in words that say from which line on. -/
theorem ofToml?_eq_malformed_iff (source text : String) :
    ofToml? source = .error (.malformed text) ↔
      Toml.Document.ofString? source = none ∧ Toml.Fault.malformed text = .ofText source := by
  rw [ofToml?]
  cases Toml.Document.ofString? source with
  | none => simp [Toml.Fault.ofText, eq_comm]
  | some entries =>
      dsimp only
      cases default.ofEntries entries <;> simp

/-- A text gives an error exactly if its document is malformed or says settings with issues. -/
theorem ofString_eq_error_iff (source : String) (e : SettingsError) :
    ofString source = .error e ↔
      (∃ why, ofToml? source = .error why ∧ e = .malformed none why) ∨
      ∃ s : Settings, ofToml? source = .ok s ∧ s.issues ≠ [] ∧ e = .invalid none s.issues := by
  unfold ofString
  cases ofToml? source with
  | error why =>
      constructor
      · intro h
        cases h
        exact .inl ⟨why, rfl, rfl⟩
      · rintro (⟨other, h, rfl⟩ | ⟨s, h, -⟩)
        · cases h
          rfl
        · cases h
  | ok s =>
      dsimp only
      split
      · next hvalid =>
          refine iff_of_false (fun h => by cases h) ?_
          rintro (⟨why, h, -⟩ | ⟨other, h, hissues, -⟩)
          · cases h
          · cases h
            exact hissues (List.isEmpty_iff.1 hvalid)
      · next hvalid =>
          constructor
          · intro h
            cases h
            exact .inr ⟨s, rfl, mt List.isEmpty_iff.2 hvalid, rfl⟩
          · rintro (⟨why, h, -⟩ | ⟨other, h, -, rfl⟩)
            · cases h
            · cases h
              rfl

/-- An error of a text names no file, so there is one way to tell it of a file. -/
theorem toldOf_iff {source : String} {inner : SettingsError} (h : ofString source = .error inner)
    (file : Path) (e : SettingsError) :
    SettingsError.ToldOf file inner e ↔ e = inner.inFile file := by
  obtain ⟨why, -, rfl⟩ | ⟨s, -, -, rfl⟩ := (ofString_eq_error_iff source inner).1 h
  · constructor
    · rintro ⟨⟩
      rfl
    · rintro rfl
      exact .malformed why
  · constructor
    · rintro ⟨⟩
      rfl
    · rintro rfl
      exact .invalid s.issues

section

variable (read : TextSource) (file : Path)

/-- Loading settings reads their file and takes what its content says. -/
theorem load_eq_ofContent : load read file = ofContent file (read file) :=
  (loading_runs read file).result_eq

/-- A file gives the settings that its text gives. -/
theorem load_eq_ok_iff (s : Settings) :
    load read file = .ok s ↔ ∃ source, read file = .ok source ∧ ofString source = .ok s := by
  rw [load_eq_ofContent, ofContent_eq_ok_iff]
  constructor
  · rintro ⟨⟨source, hread, htoml⟩, hvalid⟩
    exact ⟨source, hread, (ofString_eq_ok_iff source s).2 ⟨htoml, hvalid⟩⟩
  · rintro ⟨source, hread, hsource⟩
    obtain ⟨htoml, hvalid⟩ := (ofString_eq_ok_iff source s).1 hsource
    exact ⟨⟨source, hread, htoml⟩, hvalid⟩

/-- A file gives the error that its text gives, told of the file, unless it cannot be read. -/
theorem load_eq_error_iff (e : SettingsError) :
    load read file = .error e ↔
      (∃ why, read file = .error why ∧ e = .unreadable file why) ∨
      ∃ source inner, read file = .ok source ∧ ofString source = .error inner ∧
        SettingsError.ToldOf file inner e := by
  rw [load_eq_ofContent]
  cases read file with
  | error why => simp [ofContent, eq_comm]
  | ok source =>
      rw [ofContent]
      cases hsource : ofString source with
      | ok s => simp [Except.mapError, hsource]
      | error inner =>
          have htold := toldOf_iff hsource file e
          simp [Except.mapError, hsource, htold, eq_comm]

end

/-! ## Main statement -/

/-- Settings are loaded from a file as from its text, and every error says which file it was. The
file cannot be read, or the error is that of the text, told of the file: its message has the name of
the file before its first colon, and is the same otherwise. A file that is given is loaded in this
way, and a file that holds bytes is read as the text with these bytes. -/
theorem load_agrees (read : TextSource) (file : Path) :
    (∀ s, load read file = .ok s ↔ ∃ source, read file = .ok source ∧ ofString source = .ok s) ∧
      (∀ e, load read file = .error e ↔
        (∃ why, read file = .error why ∧ e = .unreadable file why) ∨
        ∃ source inner, read file = .ok source ∧ ofString source = .error inner ∧
          SettingsError.ToldOf file inner e) ∧
      (∀ e, load read file = .error e → e.file? = some file) ∧
      (∀ inner e, SettingsError.ToldOf file inner e →
        e.message = SettingsError.beforeColon (" (" ++ file.display ++ ")") inner.message) ∧
      loadIfGiven read (some file) = load read file ∧
      ∀ (f : Files) text, f.read? file = .ok text ↔ f.bytes? file = .ok text.toUTF8 := by
  refine ⟨load_eq_ok_iff read file, load_eq_error_iff read file, fun e h => ?_,
    fun inner e => SettingsError.message_of_toldOf, rfl, fun f text => f.read?_eq_ok_iff file text⟩
  obtain ⟨why, -, rfl⟩ | ⟨source, inner, -, -, htold⟩ := (load_eq_error_iff read file e).1 h
  · rfl
  · cases htold with
    | malformed why => rfl
    | invalid issues => rfl

/-- The statement at a file with two issues, under a name with a colon. -/
theorem load_agrees_two_issues :
    let file := Path.ofString "c:d"
    let source := "patchers = []\n[reporter]\nwidth = 0\n"
    let issues : List Issue :=
      [.emptyPatcherList, .invalidValue "reporter.width" "must be at least 1"]
    let words := "pipeline config lists no patchers\n" ++
      "invalid value for 'reporter.width': must be at least 1"
    ofString source = .error (.invalid none issues) ∧
      (SettingsError.invalid none issues).message = "invalid pipeline config: " ++ words ∧
      load (fun _ => .ok source) file = .error (.invalid (some file) issues) ∧
      (SettingsError.invalid (some file) issues).file? = some file ∧
      (SettingsError.invalid (some file) issues).message =
        "invalid pipeline config (c:d): " ++ words := by
  intro file source issues words
  have hsource : ofString source = .error (.invalid none issues) := by decide +kernel
  have htold : SettingsError.ToldOf file (.invalid none issues) (.invalid (some file) issues) :=
    .invalid issues
  obtain ⟨-, herror, hfile, hmessage, -, -⟩ := load_agrees (fun _ => .ok source) file
  have hload := (herror _).2 (.inr ⟨source, _, rfl, hsource, htold⟩)
  refine ⟨hsource, by decide +kernel, hload, hfile _ hload, ?_⟩
  rw [hmessage _ _ htold]
  decide +kernel

end Settings

end Pinpoint
