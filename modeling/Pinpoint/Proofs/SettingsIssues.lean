import Pinpoint.Proofs.AcceptedSettings

/-!
# Every issue of some settings

Settings are checked in one walk over their patchers, which gathers the names seen so far.
`nameIssues_eq` says what the walk finds without them: the issue of a name depends on the names
listed before it alone. `issues_exact` lists all issues of some settings in order, and says which
settings have none.
-/

namespace Pinpoint.Blank

/-- The characters of Unicode that are white space, one by one. -/
def whiteSpace : List Char :=
  ['\t', '\n', '\x0B', '\x0C', '\r', ' ', '\u0085', '\u00A0', '\u1680', '\u2000', '\u2001',
    '\u2002', '\u2003', '\u2004', '\u2005', '\u2006', '\u2007', '\u2008', '\u2009', '\u200A',
    '\u2028', '\u2029', '\u202F', '\u205F', '\u3000']

/-- The ranges of white space hold the code points of these characters, and no others. -/
theorem flatMap_ranges :
    ranges.flatMap (fun range => List.range' range.1 (range.2 + 1 - range.1)) =
      whiteSpace.map Char.toNat := by
  decide

/-- A character is blank exactly if it is one of white space. -/
theorem isBlank_iff_mem (c : Char) : isBlank c = true ↔ c ∈ whiteSpace := by
  have hmem : c ∈ whiteSpace ↔ c.toNat ∈ whiteSpace.map Char.toNat := by
    constructor
    · exact List.mem_map_of_mem
    · intro h
      obtain ⟨d, hd, heq⟩ := List.mem_map.1 h
      rwa [← Char.toNat_inj.1 heq]
  rw [hmem, ← flatMap_ranges, List.mem_flatMap, isBlank, List.any_eq_true]
  refine exists_congr fun range => and_congr_right fun _ => ?_
  rw [Bool.and_eq_true, decide_eq_true_eq, decide_eq_true_eq, List.mem_range'_1]
  omega

end Pinpoint.Blank

namespace Pinpoint.Settings

/-- A name says something if it has a character that is no white space. -/
def Says (name : String) : Prop := ∃ c ∈ name.toList, c ∉ Blank.whiteSpace

instance (name : String) : Decidable (Says name) :=
  inferInstanceAs (Decidable (∃ c ∈ name.toList, c ∉ Blank.whiteSpace))

/-- A text is not blank exactly if it says something. -/
theorem isBlankText_eq_false_iff (name : String) :
    Blank.isBlankText name = false ↔ Says name := by
  simp only [Blank.isBlankText, List.all_eq_false, Says, ← Blank.isBlank_iff_mem]

/-- The issue of the name at a place of a list: it says nothing, or one before it is the same. -/
def issueAt? (names : List String) (index : Nat) : Option Issue := do
  let name ← names[index]?
  if ¬ Says name then some (.missingName index)
  else if name ∈ names.take index then some (.duplicateName name)
  else none

/-! ## The walk over the names -/

/-- The issue of the name behind some others depends on these and the name alone. -/
theorem issueAt_length (earlier names : List String) (name : String) :
    issueAt? (earlier ++ name :: names) earlier.length =
      if ¬ Says name then some (.missingName earlier.length)
      else if name ∈ earlier then some (.duplicateName name)
      else none := by
  have hname : (earlier ++ name :: names)[earlier.length]? = some name := by simp
  have hearlier : (earlier ++ name :: names).take earlier.length = earlier := by simp
  rw [issueAt?, hname, hearlier, Option.bind_eq_bind, Option.bind_some]

/-- The names gathered are those listed before that say something, perhaps with others that do
not. -/
def Gathered (seen earlier : List String) : Prop :=
  ∀ name, Says name → (name ∈ seen ↔ name ∈ earlier)

/-- A name that says nothing, or that was there before, need not be gathered. -/
theorem Gathered.skip {seen earlier : List String} (h : Gathered seen earlier) {name : String}
    (hname : Says name → name ∈ earlier) : Gathered seen (earlier ++ [name]) := by
  intro other hother
  rw [h other hother, List.mem_append, List.mem_singleton]
  refine ⟨.inl, ?_⟩
  rintro (hmem | rfl)
  · exact hmem
  · exact hname hother

/-- A name gathered with those before it is gathered with them. -/
theorem Gathered.add {seen earlier : List String} (h : Gathered seen earlier) (name : String) :
    Gathered (name :: seen) (earlier ++ [name]) := by
  intro other hother
  rw [List.mem_cons, h other hother, List.mem_append, List.mem_singleton, or_comm]

/-- Behind the names listed `earlier`, the walk finds the issue of each place. -/
theorem nameIssues_eq {seen earlier : List String} (h : Gathered seen earlier)
    (entries : List NamedPatcher) :
    nameIssues earlier.length seen entries =
      (List.range' earlier.length entries.length).filterMap
        (issueAt? (earlier ++ entries.map NamedPatcher.name)) := by
  induction entries generalizing earlier seen with
  | nil => rfl
  | cons entry rest ih =>
      have hlist : earlier ++ (entry :: rest).map NamedPatcher.name =
          (earlier ++ [entry.name]) ++ rest.map NamedPatcher.name := by simp
      have hrest : ∀ {seen}, Gathered seen (earlier ++ [entry.name]) →
          nameIssues (earlier.length + 1) seen rest =
            (List.range' (earlier.length + 1) rest.length).filterMap
              (issueAt? (earlier ++ (entry :: rest).map NamedPatcher.name)) := by
        intro seen hseen
        have := ih hseen
        rwa [List.length_append, List.length_singleton, ← hlist] at this
      rw [List.length_cons, List.range'_succ, List.filterMap_cons, List.map_cons, issueAt_length,
        ← List.map_cons, nameIssues]
      by_cases hentry : Says entry.name
      · have hblank : ¬ Blank.isBlankText entry.name = true := by
          simpa using (isBlankText_eq_false_iff entry.name).2 hentry
        by_cases hmem : entry.name ∈ earlier
        · simp [hblank, hentry, hmem, h entry.name hentry, hrest (h.skip fun _ => hmem)]
        · simp [hblank, hentry, hmem, h entry.name hentry, hrest (h.add entry.name)]
      · have hblank : Blank.isBlankText entry.name = true := by
          simpa using (isBlankText_eq_false_iff entry.name).not.2 hentry
        simp [hblank, hentry, hrest (h.skip fun hname => absurd hname hentry)]

/-- The walk reports a name once for each time that it comes again. -/
theorem count_nameIssues (index : Nat) (seen : List String) (entries : List NamedPatcher)
    (name : String) :
    (nameIssues index seen entries).count (.duplicateName name) =
      if Says name then
        (entries.map NamedPatcher.name).count name - if name ∈ seen then 0 else 1
      else 0 := by
  fun_induction nameIssues index seen entries with
  | case1 => simp
  | case2 index seen entry rest hblank ih =>
      -- A blank name is neither counted nor reported as a repeat.
      have hentry : ¬ Says entry.name := by
        rw [← isBlankText_eq_false_iff, hblank]
        simp
      rw [List.count_cons, ih]
      by_cases hname : Says name
      · have hne : entry.name ≠ name := fun heq => hentry (heq ▸ hname)
        simp [hname, hne]
      · simp [hname]
  | case3 index seen entry rest hblank hseen ih =>
      rw [List.count_cons, ih]
      by_cases heq : entry.name = name
      · subst heq
        have hentry : Says entry.name := by
          simpa [← isBlankText_eq_false_iff] using hblank
        simp [hentry, hseen]
      · simp [heq]
  | case4 index seen entry rest hblank hseen ih =>
      rw [ih]
      by_cases heq : entry.name = name
      · subst heq
        simp [hseen]
      · simp [heq, Ne.symm heq]

/-! ## Main statement -/

/-- Settings have no issue exactly if they list patchers, with names that say something and are all
different, and leave room for a glyph on a line. Their issues are, in this order: that no patcher is
listed, the issue of each name by its place, and that a line has no room. A name that says something
is reported once for each time that it comes again, any other never as a repeat. -/
theorem issues_exact (s : Settings) :
    (s.issues = [] ↔
      s.patchers ≠ [] ∧ (∀ name ∈ s.listedNames, Says name) ∧ s.listedNames.Nodup ∧
        1 ≤ s.display.width) ∧
      s.issues =
        (if s.patchers = [] then [.emptyPatcherList] else []) ++
          (List.range s.patchers.length).filterMap (issueAt? s.listedNames) ++
          (if s.display.width = 0 then
            [.invalidValue "reporter.width" "must be at least 1"] else []) ∧
      ∀ name, s.issues.count (.duplicateName name) =
        if Says name then s.listedNames.count name - 1 else 0 := by
  refine ⟨?_, ?_, fun name => ?_⟩
  · rw [issues_eq_nil_iff]
    simp only [isBlankText_eq_false_iff, listedNames, List.forall_mem_map]
  · have hnames := nameIssues_eq (fun _ _ => Iff.rfl : Gathered [] []) s.patchers
    rw [List.length_nil, List.nil_append, ← List.range_eq_range'] at hnames
    rw [issues, hnames]
    simp only [List.isEmpty_iff, listedNames]
  · have hcount := count_nameIssues 0 [] s.patchers name
    simp only [List.not_mem_nil, if_false] at hcount
    have hfirst : (if s.patchers.isEmpty then [Issue.emptyPatcherList] else []).count
        (.duplicateName name) = 0 := by
      split <;> simp
    have hlast : (if s.display.width = 0 then
        [Issue.invalidValue "reporter.width" "must be at least 1"] else []).count
        (.duplicateName name) = 0 := by
      split <;> simp
    rw [issues, List.count_append, List.count_append, hfirst, hcount, hlast, Nat.zero_add,
      Nat.add_zero, listedNames]

end Pinpoint.Settings
