import Mathlib.Data.List.Induction
import Pinpoint.Settings.Load

/-!
# Settings that keep their patchers

A pipeline has one place for each name, so it can only hold every patcher of some settings if no
two of them share a name. `names_pipeline_eq_iff` says that nothing else is needed, and
`accepted_keeps_patchers` that the settings which are read from a text, and those that stand for no
file at all, always have it: a blank name is an issue before it can hide a second one.
-/

namespace Pinpoint.Pipeline

/-! ## Pipelines of listed stages -/

/-- A pipeline of some stages and one more is that of the stages, with the last one inserted. -/
theorem ofList_append (stages : List (String × Patcher)) (stage : String × Patcher) :
    ofList (stages ++ [stage]) = (ofList stages).insert stage.1 stage.2 := by
  rw [ofList, List.foldl_append]
  rfl

/-- However its stages are listed, a pipeline has each name once. -/
theorem nodup_names_ofList (stages : List (String × Patcher)) : (ofList stages).names.Nodup := by
  induction stages using List.reverseRecOn with
  | nil => exact List.nodup_nil
  | append_singleton stages stage ih =>
      rw [ofList_append]
      exact nodup_names_insert stage.1 stage.2 ih

/-- The names are those listed, without the later repeats. -/
theorem names_ofList (stages : List (String × Patcher)) :
    (ofList stages).names = (stages.map Prod.fst).eraseDups := by
  induction stages using List.reverseRecOn with
  | nil => rfl
  | append_singleton stages stage ih =>
      rw [ofList_append, names_insert, ih, List.map_append, List.eraseDups_append]
      by_cases h : stage.1 ∈ stages.map Prod.fst
      · simp [List.removeAll, h]
      · simp [List.removeAll, h, List.eraseDups_cons]

/-- Stages with different names all keep their place. -/
theorem stages_ofList {stages : List (String × Patcher)} (h : (stages.map Prod.fst).Nodup) :
    (ofList stages).stages = stages := by
  induction stages using List.reverseRecOn with
  | nil => rfl
  | append_singleton stages stage ih =>
      rw [List.map_append, List.map_singleton, List.nodup_append] at h
      obtain ⟨hstages, -, hnew⟩ := h
      have hmem : stage.1 ∉ Named.names stages := fun hmem =>
        hnew _ hmem _ (List.mem_singleton_self _) rfl
      rw [ofList_append, insert, ih hstages, Named.put_of_not_mem hmem]

end Pinpoint.Pipeline

namespace Pinpoint.Settings

/-- The names that settings list, in order. -/
def listedNames (s : Settings) : List String := s.patchers.map NamedPatcher.name

/-- The stages that settings ask for, one for each patcher that they list. -/
def listedStages (s : Settings) : List (String × Patcher) :=
  s.patchers.map fun entry => (entry.name, entry.kind.patcher)

/-- The stages that settings ask for are named as the patchers that they list. -/
theorem map_fst_listedStages (s : Settings) : s.listedStages.map Prod.fst = s.listedNames := by
  rw [listedStages, List.map_map]
  rfl

/-! ## Names without issues -/

/-- Names have no issue exactly if none is blank, none comes twice and none was seen before. -/
theorem nameIssues_eq_nil_iff (index : Nat) (seen : List String) (entries : List NamedPatcher) :
    nameIssues index seen entries = [] ↔
      (∀ entry ∈ entries, Blank.isBlankText entry.name = false) ∧
        (entries.map NamedPatcher.name).Nodup ∧ ∀ entry ∈ entries, entry.name ∉ seen := by
  fun_induction nameIssues index seen entries with
  | case1 => simp
  | case2 index seen entry rest hblank =>
      refine iff_of_false (by simp) fun h => ?_
      exact absurd (h.1 entry List.mem_cons_self) (by simp [hblank])
  | case3 index seen entry rest hblank hseen =>
      refine iff_of_false (by simp) fun h => ?_
      exact h.2.2 entry List.mem_cons_self hseen
  | case4 index seen entry rest hblank hseen ih =>
      -- A name seen from here on is either seen already or this one.
      have hsplit : (∀ other ∈ rest, other.name ∉ entry.name :: seen) ↔
          entry.name ∉ rest.map NamedPatcher.name ∧ ∀ other ∈ rest, other.name ∉ seen := by
        simp only [List.mem_cons, not_or, List.mem_map, not_exists, not_and]
        exact forall₂_and
      rw [ih, hsplit, List.forall_mem_cons, List.forall_mem_cons, List.map_cons, List.nodup_cons]
      constructor
      · rintro ⟨hblanks, hnodup, hnew, hunseen⟩
        exact ⟨⟨Bool.eq_false_iff.2 hblank, hblanks⟩, ⟨hnew, hnodup⟩, hseen, hunseen⟩
      · rintro ⟨⟨-, hblanks⟩, ⟨hnew, hnodup⟩, -, hunseen⟩
        exact ⟨hblanks, hnodup, hnew, hunseen⟩

/-- Settings have no issue exactly if they list patchers, with names that are not blank and
different, and have room for a glyph on a line. -/
theorem issues_eq_nil_iff (s : Settings) :
    s.issues = [] ↔
      s.patchers ≠ [] ∧ (∀ entry ∈ s.patchers, Blank.isBlankText entry.name = false) ∧
        s.listedNames.Nodup ∧ 1 ≤ s.display.width := by
  have hnames := nameIssues_eq_nil_iff 0 [] s.patchers
  simp only [List.not_mem_nil, not_false_eq_true, implies_true, and_true] at hnames
  have hpatchers : (if s.patchers.isEmpty then [Issue.emptyPatcherList] else []) = [] ↔
      s.patchers ≠ [] := by
    cases s.patchers <;> simp
  have hwidth : (if s.display.width = 0 then
      [Issue.invalidValue "reporter.width" "must be at least 1"] else []) = [] ↔
      1 ≤ s.display.width := by
    split
    · simp_all
    · simp
      omega
  rw [issues, List.append_eq_nil_iff, List.append_eq_nil_iff, hpatchers, hwidth, hnames]
  simp only [listedNames, and_assoc]

/-! ## The pipeline of some settings -/

/-- The names of the pipeline are those that settings list, each at its first place. -/
theorem names_pipeline (s : Settings) : s.pipeline.names = s.listedNames.eraseDups := by
  rw [← map_fst_listedStages]
  exact Pipeline.names_ofList s.listedStages

/-- Names that are all different each have their stage in the pipeline, in the order listed. -/
theorem stages_pipeline {s : Settings} (h : s.listedNames.Nodup) :
    s.pipeline.stages = s.listedStages := by
  rw [← map_fst_listedStages] at h
  exact Pipeline.stages_ofList h

/-- A pipeline has every name that settings list exactly if these are different. -/
theorem names_pipeline_eq_iff (s : Settings) :
    s.pipeline.names = s.listedNames ↔ s.listedNames.Nodup := by
  constructor
  · intro h
    rw [← h]
    exact Pipeline.nodup_names_ofList s.listedStages
  · intro h
    rw [Pipeline.names, stages_pipeline h]
    exact map_fst_listedStages s

/-- Some settings have no issue, and their pipeline holds each patcher that they list, under its
name and in their order. -/
structure KeepsPatchers (s : Settings) : Prop where
  valid : s.issues = []
  width_pos : 1 ≤ s.display.width
  patchers_ne_nil : s.patchers ≠ []
  names_eq : s.pipeline.names = s.listedNames
  stages_eq : s.pipeline.stages = s.listedStages

/-- Settings without an issue keep their patchers. -/
theorem keepsPatchers_of_valid {s : Settings} (h : s.issues = []) : KeepsPatchers s := by
  obtain ⟨hpatchers, -, hnames, hwidth⟩ := (issues_eq_nil_iff s).1 h
  exact ⟨h, hwidth, hpatchers, (names_pipeline_eq_iff s).2 hnames, stages_pipeline hnames⟩

/-! ## Main statement -/

/-- A text is read as settings if its document says them and they have no issue. -/
theorem ofString_eq_ok_iff (source : String) (s : Settings) :
    ofString source = .ok s ↔ ofToml? source = .ok s ∧ s.issues = [] := by
  cases h : ofToml? source with
  | error why => simp [ofString, h]
  | ok found =>
      by_cases hvalid : found.issues = []
      · simp only [ofString, h, hvalid, List.isEmpty_nil, if_true, Except.ok.injEq]
        exact ⟨fun e => ⟨e, e ▸ hvalid⟩, And.left⟩
      · have hempty : found.issues.isEmpty = false := by simpa using hvalid
        simp only [ofString, h, hempty, Bool.false_eq_true, if_false, Except.ok.injEq, reduceCtorEq,
          false_iff, not_and]
        rintro rfl
        exact hvalid

/-- The settings of a text and those that stand for no file keep their patchers. Any settings at all
give a pipeline with the names that they list, less the later repeats, which are all of them exactly
if no two are the same. -/
theorem accepted_keeps_patchers :
    (∀ source s, ofString source = .ok s → KeepsPatchers s) ∧
      (∀ read, ∃ s, loadIfGiven read none = .ok s ∧ KeepsPatchers s) ∧
      ∀ s : Settings, s.pipeline.names = s.listedNames.eraseDups ∧
        (s.pipeline.names = s.listedNames ↔ s.listedNames.Nodup) := by
  refine ⟨fun source s h => ?_, fun read => ⟨default, rfl, ?_⟩, fun s => ?_⟩
  · exact keepsPatchers_of_valid ((ofString_eq_ok_iff source s).1 h).2
  · exact keepsPatchers_of_valid (by decide +kernel)
  · exact ⟨names_pipeline s, names_pipeline_eq_iff s⟩

/-- The statement at a text with two patchers. -/
theorem accepted_keeps_patchers_two :
    let source := "[[patchers]]\nname = \"b\"\nkind = \"rebase\"\n[[patchers]]\nname = \" a\"\n" ++
      "kind = \"rebase\"\n[reporter]\nwidth = 1\n"
    let s : Settings := ⟨[⟨"b", .pinning⟩, ⟨" a", .pinning⟩], ⟨1, true⟩⟩
    ofString source = .ok s ∧ KeepsPatchers s := by
  intro source s
  have hread : ofString source = .ok s := by decide +kernel
  exact ⟨hread, accepted_keeps_patchers.1 source s hread⟩

end Pinpoint.Settings
