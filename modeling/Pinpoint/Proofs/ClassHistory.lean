import Mathlib.Data.Finset.Card
import Mathlib.Data.Finset.Dedup
import Mathlib.Data.List.TakeWhile
import Pinpoint.Proofs.CommandOutcome

/-!
# Classes and the files inserted for them

A class index is judged by the calls that made it, the oldest first. Names that differ only in the
backslashes before them are names of one class (`SameClass`), and the last call for a class is the
one that counts (`lastFile?`). `remembers_insert` says what one call does and `remembers_ofList`
what all of them do. `insertAll_lastWins` puts this together for an index that was collected from
classes and then changed call by call, and for the one class that a command locates.
-/

namespace Pinpoint

namespace ClassIndex

/-! ## Names of one class -/

/-- Two names of one class: behind the backslashes before them they are the same. -/
def SameClass (name other : String) : Prop :=
  ∃ (bare : List Char) (i j : Nat),
    name.toList = List.replicate i '\\' ++ bare ∧ other.toList = List.replicate j '\\' ++ bare

/-- A name is a row of backslashes and its bare name. -/
theorem exists_bareName (name : String) :
    ∃ count, name.toList = List.replicate count '\\' ++ (bareName name).toList := by
  refine ⟨(name.toList.takeWhile (· == '\\')).length, ?_⟩
  have hbefore : name.toList.takeWhile (· == '\\') =
      List.replicate (name.toList.takeWhile (· == '\\')).length '\\' :=
    List.eq_replicate_of_mem fun c hc => by simpa using List.mem_takeWhile_imp hc
  rw [← hbefore, bareName, String.toList_ofList]
  exact (List.takeWhile_append_dropWhile).symm

/-- Backslashes before a name do not count, however many there are. -/
theorem bareName_of_toList {name : String} {bare : List Char} {count : Nat}
    (h : name.toList = List.replicate count '\\' ++ bare) :
    bareName name = String.ofList (bare.dropWhile (· == '\\')) := by
  have hbefore : ∀ c ∈ List.replicate count '\\', (c == '\\') = true := by
    intro c hc
    rw [List.eq_of_mem_replicate hc]
    rfl
  rw [bareName, h, List.dropWhile_append_of_pos hbefore]

/-- Two names have one bare name exactly if they are names of one class. -/
theorem bareName_eq_iff (name other : String) :
    bareName name = bareName other ↔ SameClass name other := by
  constructor
  · intro h
    obtain ⟨i, hname⟩ := exists_bareName name
    obtain ⟨j, hother⟩ := exists_bareName other
    exact ⟨(bareName name).toList, i, j, hname, h ▸ hother⟩
  · rintro ⟨bare, i, j, hname, hother⟩
    rw [bareName_of_toList hname, bareName_of_toList hother]

instance (name other : String) : Decidable (SameClass name other) :=
  decidable_of_iff _ (bareName_eq_iff name other)

/-! ## Calls and what they leave -/

/-- The file of the last call for a class. -/
def lastFile? (calls : List (String × Path)) (name : String) : Option Path :=
  (calls.reverse.find? fun call => SameClass call.1 name).map Prod.snd

/-- After one call more the last file for a class is that of the call, if it is for this class, and
the one before otherwise. -/
theorem lastFile?_append (calls : List (String × Path)) (call : String × Path) (name : String) :
    lastFile? (calls ++ [call]) name =
      if SameClass call.1 name then some call.2 else lastFile? calls name := by
  unfold lastFile?
  rw [List.reverse_append, List.reverse_singleton, List.singleton_append, List.find?_cons]
  by_cases h : SameClass call.1 name
  · simp [h]
  · simp [h]

/-- An index holds one file for each class of some calls, the one of the last call for it. -/
structure Remembers (calls : List (String × Path)) (index : ClassIndex) : Prop where
  nodup : (Named.names index.entries).Nodup
  mem_names_iff (bare : String) :
    bare ∈ Named.names index.entries ↔ bare ∈ calls.map fun call => bareName call.1
  find?_eq (name : String) : index.find? name = lastFile? calls name

/-- The empty index remembers that there was no call. -/
theorem remembers_empty : Remembers [] empty where
  nodup := List.nodup_nil
  mem_names_iff _ := Iff.rfl
  find?_eq _ := rfl

/-- A call for a class adds to what an index remembers. -/
theorem remembers_insert {calls : List (String × Path)} {index : ClassIndex}
    (h : Remembers calls index) (call : String × Path) :
    Remembers (calls ++ [call]) (index.insert call.1 call.2) where
  nodup := by
    rw [entries_insert]
    exact Named.nodup_put h.nodup _ _
  mem_names_iff bare := by
    rw [entries_insert, Named.names_put, List.map_append, List.mem_append, ← h.mem_names_iff]
    split
    · next hknown =>
        refine ⟨.inl, fun hbare => hbare.elim id fun hlast => ?_⟩
        rw [List.mem_singleton.1 hlast]
        exact hknown
    · exact List.mem_append
  find?_eq name := by
    rw [find?_insert, lastFile?_append, h.find?_eq]
    simp only [bareName_eq_iff]

/-- Collecting one class more inserts it into the index of the others. -/
theorem ofList_append (calls : List (String × Path)) (call : String × Path) :
    ofList (calls ++ [call]) = (ofList calls).insert call.1 call.2 := by
  rw [ofList, List.foldl_append]
  rfl

/-- An index that was collected from classes remembers them all. -/
theorem remembers_ofList (calls : List (String × Path)) : Remembers calls (ofList calls) := by
  induction calls using List.reverseRecOn with
  | nil => exact remembers_empty
  | append_singleton calls call ih =>
      rw [ofList_append]
      exact remembers_insert ih call

namespace Remembers

variable {calls : List (String × Path)} {index : ClassIndex}

/-- There are as many files as there are names without the backslashes before them. -/
theorem size_eq (h : Remembers calls index) :
    index.size = (calls.map fun call => bareName call.1).toFinset.card := by
  have hnames : (Named.names index.entries).toFinset =
      (calls.map fun call => bareName call.1).toFinset := by
    ext bare
    rw [List.mem_toFinset, List.mem_toFinset, h.mem_names_iff]
  rw [← hnames, List.toFinset_card_of_nodup h.nodup]
  exact (List.length_map _).symm

/-- An index is empty exactly if there was no call. -/
theorem isEmpty_iff (h : Remembers calls index) : index.isEmpty ↔ calls = [] := by
  have hnames : Named.names index.entries = [] ↔ (calls.map fun call => bareName call.1) = [] := by
    rw [List.eq_nil_iff_forall_not_mem, List.eq_nil_iff_forall_not_mem]
    exact forall_congr' fun bare => not_congr (h.mem_names_iff bare)
  rw [List.map_eq_nil_iff] at hnames
  rw [isEmpty, List.isEmpty_iff, ← hnames]
  exact List.map_eq_nil_iff.symm

end Remembers

/-! ## Calls one after another -/

/-- Makes one call after another. Gives the file that each call takes the place of, and the index in
the end. -/
def insertAll (index : ClassIndex) : List (String × Path) → List (Option Path) × ClassIndex
  | [] => ([], index)
  | (name, file) :: rest =>
    let (former, next) := index.exchange name file
    let (formers, final) := insertAll next rest
    (former :: formers, final)

/-- A call gives the file that was found for the class before it. -/
theorem exchange_eq (index : ClassIndex) (name : String) (file : Path) :
    index.exchange name file = (index.find? name, index.insert name file) := by
  have hformer : (index.exchange name file).1 = index.find? name := by
    rw [exchange, Named.exchange_eq]
    rfl
  rw [← hformer]
  rfl

/-- The first of some calls is answered by the index as it is, and the others by what it leaves. -/
theorem insertAll_cons (index : ClassIndex) (name : String) (file : Path)
    (rest : List (String × Path)) :
    insertAll index ((name, file) :: rest) =
      (index.find? name :: (insertAll (index.insert name file) rest).1,
        (insertAll (index.insert name file) rest).2) := by
  rw [insertAll, exchange_eq]

/-- Calls leave what collecting their classes gives. -/
theorem insertAll_ofList (collected calls : List (String × Path)) :
    (insertAll (ofList collected) calls).2 = ofList (collected ++ calls) := by
  induction calls generalizing collected with
  | nil => rw [List.append_nil, insertAll]
  | cons call rest ih =>
      rw [insertAll_cons, ← ofList_append, ih, List.append_assoc]
      rfl

/-- Each of some calls is answered by what the calls before it have left for its class. -/
theorem formers_insertAll (index : ClassIndex) (calls : List (String × Path)) (i : Nat) :
    (insertAll index calls).1[i]? =
      calls[i]?.map fun call => (insertAll index (calls.take i)).2.find? call.1 := by
  induction calls generalizing index i with
  | nil => rfl
  | cons call rest ih =>
      rw [insertAll_cons]
      cases i with
      | zero => rfl
      | succ i =>
          rw [List.getElem?_cons_succ, List.getElem?_cons_succ, List.take_succ_cons,
            insertAll_cons, ih]

end ClassIndex

/-! ## The class that a command locates -/

/-- A stage of a pipeline is one of those that it was made of. -/
theorem Pipeline.mem_ofList {stages : List (String × Patcher)} {stage : String × Patcher}
    (h : stage ∈ (ofList stages).stages) : stage ∈ stages := by
  induction stages using List.reverseRecOn with
  | nil => exact h
  | append_singleton stages last ih =>
      rw [ofList_append] at h
      rw [List.mem_append, List.mem_singleton]
      exact (Named.mem_put h).symm.imp ih id

/-- The patchers that settings can name send no class to another file. -/
theorem Settings.locate_pipeline (s : Settings) (loader : Loader) (name : String) (file : Path) :
    s.pipeline.locate loader name file = file := by
  have hstages : ∀ stage ∈ s.pipeline.stages, stage.2.locate loader name = id := by
    intro stage hstage
    obtain ⟨entry, -, rfl⟩ := List.mem_map.1 (Pipeline.mem_ofList hstage)
    cases entry.kind with
    | pinning => rfl
  unfold Pipeline.locate
  generalize s.pipeline.stages = stages at hstages ⊢
  induction stages with
  | nil => rfl
  | cons stage rest ih =>
      show rest.foldl _ (stage.2.locate loader name file) = file
      rw [hstages stage List.mem_cons_self]
      exact ih fun other hother => hstages other (List.mem_cons_of_mem _ hother)

/-- The pipeline of any settings finds the file of a class where an index of this one class has it.
-/
theorem Settings.resolve?_pipeline (s : Settings) (name : String) (file : Path) :
    s.pipeline.resolve? (ClassIndex.ofList [(name, file)]).find? name = some file := by
  rw [Pipeline.resolve?_proposed, locate_pipeline]

namespace Command

/-- A task that fails does so for its file. -/
theorem Task.result_ne_unknownClass (read : TextSource) (styled : Bool) (s : Settings) (t : Task)
    (name : String) : (t.session styled s).result read ≠ .error (.unknownClass name) := by
  cases t with
  | patch tree file form =>
      show (patching styled s tree file form).result read ≠ _
      rw [patching, Session.result_bind]
      cases (Span.loading tree).result read with
      | error why =>
          intro h
          cases h
      | ok before =>
          intro h
          rw [Session.result_bind] at h
          cases h
  | locate located file =>
      obtain ⟨text, hruns⟩ := locating_runs s located file
      show (locating s located file).result read ≠ _
      rw [hruns.result_eq]
      intro h
      cases h
  | report input =>
      show (reporting styled s input).result read ≠ _
      have hread : (Session.read input).result read = read input := rfl
      rw [reporting, Session.result_bind, hread]
      cases read input with
      | error why =>
          intro h
          cases h
      | ok source =>
          dsimp only
          cases Report.listOfJson? source with
          | error why =>
              intro h
              cases h
          | ok reports =>
              intro h
              cases h

/-- No command fails because a class is unknown. -/
theorem Invocation.result_ne_unknownClass (read : TextSource) (styled : Bool) (i : Invocation)
    (name : String) : (i.session styled).result read ≠ .error (.unknownClass name) := by
  rw [session, Session.result_bind]
  cases (Settings.loadingIfGiven i.config).result read with
  | error why =>
      intro h
      cases h
  | ok s => exact Task.result_ne_unknownClass read styled s i.task name

end Command

/-! ## Main statement -/

namespace ClassIndex

/-- An index answers by the calls that made it: the last one for a class wins, and one call more
changes nothing for the other classes. -/
structure LastWins (calls : List (String × Path)) (index : ClassIndex) : Prop where
  find?_eq (name : String) : index.find? name = lastFile? calls name
  size_eq : index.size = (calls.map fun call => bareName call.1).toFinset.card
  isEmpty_iff : index.isEmpty ↔ calls = []
  find?_exchange (name other : String) (file : Path) :
    ¬SameClass name other → (index.exchange name file).2.find? other = index.find? other

/-- An index that remembers its calls answers by the last one for each class. -/
theorem Remembers.lastWins {calls : List (String × Path)} {index : ClassIndex}
    (h : Remembers calls index) : LastWins calls index where
  find?_eq := h.find?_eq
  size_eq := h.size_eq
  isEmpty_iff := h.isEmpty_iff
  find?_exchange name other file hother := by
    rw [← bareName_eq_iff] at hother
    exact (find?_insert index name other file).trans (if_neg hother)

/-- Classes are collected, and then files are inserted call by call. The index is the one that all
calls one by one would have made, and answers by them; each call gives what was found for its class
just before. Names count without the backslashes before them. So a class is found in the index of
this class alone, whatever the settings, and no command fails to find it. -/
theorem insertAll_lastWins (collected calls : List (String × Path)) :
    (insertAll (ofList collected) calls).2 = (insertAll empty (collected ++ calls)).2 ∧
      LastWins (collected ++ calls) (insertAll (ofList collected) calls).2 ∧
      (∀ i, (insertAll (ofList collected) calls).1[i]? = calls[i]?.map fun call =>
        (insertAll (ofList collected) (calls.take i)).2.find? call.1) ∧
      (∀ name other, bareName name = bareName other ↔ SameClass name other) ∧
      ∀ name file,
        (∀ s : Settings, s.pipeline.resolve? (ofList [(name, file)]).find? name = some file) ∧
        ∀ (i : Command.Invocation) styled read,
          (i.session styled).result read ≠ .error (.unknownClass name) := by
  refine ⟨?_, ?_, formers_insertAll _ calls, bareName_eq_iff, fun name file => ⟨fun s => ?_, ?_⟩⟩
  · rw [insertAll_ofList]
    exact (insertAll_ofList [] (collected ++ calls)).symm
  · rw [insertAll_ofList]
    exact (remembers_ofList (collected ++ calls)).lastWins
  · exact s.resolve?_pipeline name file
  · intro i styled read
    exact i.result_ne_unknownClass read styled name

/-- Backslashes inside a name count, and a name of backslashes only is the empty name. -/
example (f g h : Path) :
    insertAll (ofList [("\\A\\B", f), ("A\\\\B", f)]) [("A\\B", g), ("\\\\", h), ("", f)] =
      ([some f, none, some h], ⟨[("A\\B", g), ("A\\\\B", f), ("", f)]⟩) := by
  rfl

end ClassIndex

end Pinpoint
