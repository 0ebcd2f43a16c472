import Pinpoint.Settings.Basic

/-!
# Pipelines and what was done to them

A pipeline is judged by its history: the changes made to it, the oldest first. For each name the
history says which patcher was added last under it since it was last taken out, and when the name
came in. `reflects_run` says that a pipeline answers by this alone: its names are those that came
in, in the order in which they did, and it applies to a tree or a file the last patcher of each.
-/

namespace Pinpoint.Pipeline

/-- A change of one name, or of all. -/
inductive Change where
  | add (name : String) (patcher : Patcher)
  | remove (name : String)
  | clear

namespace Change

/-- Whether the change takes a name out. -/
def takesOut (name : String) : Change → Bool
  | add _ _ => false
  | remove other => other = name
  | clear => true

/-- The patcher that the change adds under a name. -/
def added? (name : String) : Change → Option Patcher
  | add other patcher => if other = name then some patcher else none
  | remove _ => none
  | clear => none

/-- Makes a change. -/
def apply (p : Pipeline) : Change → Pipeline
  | add name patcher => p.insert name patcher
  | remove name => (p.remove name).2
  | clear => empty

end Change

/-- Changes made one after another, the oldest first. -/
abbrev History := List Change

namespace History

/-- The changes since a name was last taken out. -/
def since (name : String) (history : History) : History :=
  (history.reverse.takeWhile fun change => !change.takesOut name).reverse

/-- The patcher that was added last under a name since then. -/
def last? (name : String) (history : History) : Option Patcher :=
  (history.since name).reverse.findSome? (·.added? name)

/-- When a name came in: the number of changes before the first since then that adds it. -/
def arrival? (name : String) (history : History) : Option Nat :=
  ((history.since name).findIdx? fun change => (change.added? name).isSome).map
    (· + (history.length - (history.since name).length))

/-- Both names came in, one before the other. -/
def Before (history : History) (name other : String) : Prop :=
  ∃ i j, history.arrival? name = some i ∧ history.arrival? other = some j ∧ i < j

/-! ## One change more -/

variable (name : String) (history : History) (change : Change)

/-- A change that takes a name out leaves nothing since then, and any other is the last one since
then. -/
theorem since_append :
    since name (history ++ [change]) =
      if change.takesOut name then [] else history.since name ++ [change] := by
  cases h : change.takesOut name with
  | true => simp [since, h]
  | false => simp [since, h]

/-- The changes since a name was taken out are some of all changes. -/
theorem length_since_le : (history.since name).length ≤ history.length := by
  rw [since, List.length_reverse, ← history.length_reverse]
  exact (List.takeWhile_sublist _).length_le

/-- After one change more the last patcher of a name is none if it was taken out, the one just
added, or the one before. -/
theorem last?_append :
    last? name (history ++ [change]) =
      if change.takesOut name then none else (change.added? name).or (history.last? name) := by
  rw [last?, since_append]
  split
  · rfl
  · rw [List.reverse_append, List.reverse_singleton, List.singleton_append, List.findSome?_cons]
    cases change.added? name <;> rfl

/-- After one change more a name has not come in if it was taken out, has come in as before, or
comes in with this change. -/
theorem arrival?_append :
    arrival? name (history ++ [change]) =
      if change.takesOut name then none
      else (history.arrival? name).or
        (if (change.added? name).isSome then some history.length else none) := by
  have hle := length_since_le name history
  rw [arrival?, since_append]
  split
  · rfl
  · -- One change more lengthens the history and what is left of it alike.
    have hshift : history.length + 1 - ((history.since name).length + 1) =
        history.length - (history.since name).length := by
      omega
    have hlast : (history.since name).length +
        (history.length - (history.since name).length) = history.length := by
      omega
    rw [List.findIdx?_append, List.length_append, List.length_append, List.length_singleton, hshift,
      arrival?]
    cases (history.since name).findIdx? fun change => (change.added? name).isSome with
    | some i => rfl
    | none =>
        cases h : (change.added? name).isSome with
        | true => simp [List.findIdx?_cons, h, hlast]
        | false => simp [List.findIdx?_cons, h]

/-- A name came in with a change of the history. -/
theorem arrival?_lt {i : Nat} (h : history.arrival? name = some i) : i < history.length := by
  have hle := length_since_le name history
  obtain ⟨k, hk, rfl⟩ := Option.map_eq_some_iff.1 h
  have := (List.findIdx?_eq_some_iff_findIdx_eq.1 hk).1
  omega

/-- A name came in exactly if a patcher was added under it. -/
theorem isSome_arrival? : (history.arrival? name).isSome = (history.last? name).isSome := by
  rw [arrival?, last?, Option.isSome_map, List.findIdx?_isSome, Bool.eq_iff_iff,
    List.findSome?_isSome_iff]
  simp

variable {name history}

/-- What is added does not move the names that are there. -/
theorem arrival?_add {i : Nat} (h : history.arrival? name = some i) (other : String)
    (patcher : Patcher) : arrival? name (history ++ [.add other patcher]) = some i := by
  rw [arrival?_append, h]
  rfl

/-- To take a name out does not move the others. -/
theorem arrival?_remove {other : String} (h : other ≠ name) :
    arrival? name (history ++ [.remove other]) = history.arrival? name := by
  rw [arrival?_append]
  simp [Change.takesOut, Change.added?, h]

end History

/-! ## One change keeps a pipeline to its history -/

/-- A pipeline holds the patchers that its history leaves, in the order in which their names came
in. -/
structure Follows (history : History) (p : Pipeline) : Prop where
  nodup : p.names.Nodup
  find?_eq (name : String) : p.find? name = history.last? name
  ordered : p.names.Pairwise history.Before

namespace Follows

variable {history : History} {p : Pipeline}

/-- A pipeline has a name exactly if its history leaves a patcher for it. -/
theorem mem_names_iff (h : Follows history p) (name : String) :
    name ∈ p.names ↔ (history.last? name).isSome := by
  rw [p.mem_names_iff, h.find?_eq]

/-- The names of a pipeline are those that came in. -/
theorem exists_arrival (h : Follows history p) {name : String} (hname : name ∈ p.names) :
    ∃ i, history.arrival? name = some i := by
  rwa [h.mem_names_iff, ← History.isSome_arrival?, Option.isSome_iff_exists] at hname

/-- A name that the pipeline lacks never came in, or was taken out since. -/
theorem arrival?_eq_none (h : Follows history p) {name : String} (hname : name ∉ p.names) :
    history.arrival? name = none := by
  rwa [h.mem_names_iff, ← History.isSome_arrival?, Option.not_isSome_iff_eq_none] at hname

/-- The empty pipeline follows the empty history. -/
theorem start : Follows [] empty where
  nodup := List.nodup_nil
  find?_eq _ := rfl
  ordered := .nil

/-- Adding a patcher keeps a pipeline to its history. -/
theorem insert (h : Follows history p) (name : String) (patcher : Patcher) :
    Follows (history ++ [.add name patcher]) (p.insert name patcher) where
  nodup := nodup_names_insert name patcher h.nodup
  find?_eq other := by
    rw [find?_insert, History.last?_append, h.find?_eq]
    by_cases heq : name = other
    · simp [Change.takesOut, Change.added?, heq]
    · simp [Change.takesOut, Change.added?, heq]
  ordered := by
    have hold : p.names.Pairwise (History.Before (history ++ [.add name patcher])) :=
      h.ordered.imp fun ⟨i, j, hi, hj, hlt⟩ =>
        ⟨i, j, History.arrival?_add hi name patcher, History.arrival?_add hj name patcher, hlt⟩
    rw [names_insert]
    split
    · exact hold
    · next hnew =>
        -- A new name comes in now, and all others did before.
        refine List.pairwise_append.2 ⟨hold, List.pairwise_singleton _ _, ?_⟩
        intro other hother last hlast
        obtain rfl := List.mem_singleton.1 hlast
        obtain ⟨i, hi⟩ := h.exists_arrival hother
        refine ⟨i, history.length, History.arrival?_add hi _ patcher, ?_,
          History.arrival?_lt other history hi⟩
        rw [History.arrival?_append, h.arrival?_eq_none hnew]
        simp [Change.takesOut, Change.added?]

/-- Removing a name keeps a pipeline to its history. -/
theorem erase (h : Follows history p) (name : String) :
    Follows (history ++ [.remove name]) (p.erase name) where
  nodup := by
    rw [names_erase]
    exact h.nodup.erase name
  find?_eq other := by
    rw [find?_erase name other h.nodup, History.last?_append, h.find?_eq]
    by_cases heq : name = other
    · simp [Change.takesOut, heq]
    · simp [Change.takesOut, Change.added?, heq]
  ordered := by
    -- The names that stay are not the one taken out, and came in when they did.
    have hne {other : String} (hother : other ∈ p.names.erase name) : name ≠ other := by
      rintro rfl
      exact h.nodup.not_mem_erase hother
    rw [names_erase]
    refine (h.ordered.sublist List.erase_sublist).imp_of_mem fun hother hlast => ?_
    rintro ⟨i, j, hi, hj, hlt⟩
    exact ⟨i, j, (History.arrival?_remove (hne hother)).trans hi,
      (History.arrival?_remove (hne hlast)).trans hj, hlt⟩

/-- Whatever was done before, a cleared pipeline follows its history. -/
theorem clear (history : History) : Follows (history ++ [.clear]) empty where
  nodup := List.nodup_nil
  find?_eq name := by
    rw [History.last?_append]
    rfl
  ordered := .nil

/-- Each change keeps a pipeline to its history. -/
theorem step (h : Follows history p) (change : Change) :
    Follows (history ++ [change]) (change.apply p) := by
  cases change with
  | add name patcher => exact h.insert name patcher
  | remove name => exact h.erase name
  | clear => exact clear history

/-- So do changes made one after another. -/
theorem steps (h : Follows history p) (changes : List Change) :
    Follows (history ++ changes) (changes.foldl Change.apply p) := by
  induction changes generalizing history p with
  | nil => simpa using h
  | cons change rest ih => simpa using ih (h.step change)

end Follows

/-! ## Operations -/

/-- What is done to a pipeline. Settings put a pipeline of their own in its place. -/
inductive Operation where
  | add (name : String) (patcher : Patcher)
  | remove (name : String)
  | clear
  | configure (s : Settings)

namespace Operation

/-- Does it. -/
def apply (p : Pipeline) : Operation → Pipeline
  | add name patcher => p.insert name patcher
  | remove name => (p.remove name).2
  | clear => empty
  | configure s => s.pipeline

/-- The changes that it stands for: settings clear a pipeline and add what they list. -/
def changes : Operation → List Change
  | add name patcher => [.add name patcher]
  | remove name => [.remove name]
  | clear => [.clear]
  | configure s => .clear :: s.patchers.map fun entry => .add entry.name entry.kind.patcher

/-- An operation does what the changes do that it stands for. -/
theorem apply_eq_foldl (p : Pipeline) (op : Operation) :
    op.apply p = op.changes.foldl Change.apply p := by
  cases op with
  | add name patcher => rfl
  | remove name => rfl
  | clear => rfl
  | configure s =>
      rw [apply, Settings.pipeline, ofList, changes, List.foldl_cons, List.foldl_map,
        List.foldl_map]
      rfl

end Operation

/-- Does one operation after another, on an empty pipeline to begin with. -/
def run (ops : List Operation) : Pipeline := ops.foldl Operation.apply empty

/-- What was changed in doing so. -/
def historyOf (ops : List Operation) : History := ops.flatMap Operation.changes

/-- After any operations, one after another, a pipeline follows what was changed. -/
theorem follows_run (ops : List Operation) : Follows (historyOf ops) (run ops) := by
  have hrun : run ops = (historyOf ops).foldl Change.apply empty := by
    rw [run, historyOf, List.foldl_flatMap]
    exact congrArg (fun f => ops.foldl f empty)
      (funext fun p => funext fun op => op.apply_eq_foldl p)
  rw [hrun]
  exact Follows.start.steps (historyOf ops)

/-! ## Main statement -/

/-- A pipeline answers as the ordered map of the patchers that its history leaves, and applies each
of them once, in the order of their names. -/
structure Reflects (history : History) (p : Pipeline) : Prop extends Follows history p where
  mem_names_iff (name : String) : name ∈ p.names ↔ (history.last? name).isSome
  contains_iff (name : String) : p.contains name ↔ name ∈ p.names
  removed_eq (name : String) : (p.remove name).1 = history.last? name
  names_remove (name : String) : (p.remove name).2.names = p.names.filter (· ≠ name)
  find?_remove (name other : String) :
    (p.remove name).2.find? other = if name = other then none else history.last? other
  size_eq : p.size = p.names.length
  isEmpty_iff : p.isEmpty ↔ p.names = []
  applied : ∃ patchers : List Patcher, p.names.map history.last? = patchers.map some ∧
    (∀ file tree, p.patch file tree =
      patchers.foldl (fun tree patcher => patcher.patch file tree) tree) ∧
    (∀ loader name file, p.locate loader name file =
      patchers.foldl (fun file patcher => patcher.locate loader name file) file) ∧
    ∀ loader name, p.resolve? loader name = (loader name).map fun file =>
      patchers.foldl (fun file patcher => patcher.locate loader name file) file
  resolve?_eq_none_iff (loader : Loader) (name : String) :
    p.resolve? loader name = none ↔ loader name = none

/-- The patchers of a pipeline, in order, are those found under its names. -/
theorem Follows.map_names {history : History} {p : Pipeline} (h : Follows history p) :
    p.names.map history.last? = (p.stages.map Prod.snd).map some := by
  rw [List.map_map]
  exact (List.map_congr_left fun name _ => (h.find?_eq name).symm).trans
    (Named.map_find?_names h.nodup)

/-- A tree goes through the patchers of a pipeline, the first one first. -/
theorem patch_eq_foldl (p : Pipeline) (file : Path) (tree : Span) :
    p.patch file tree =
      (p.stages.map Prod.snd).foldl (fun tree patcher => patcher.patch file tree) tree := by
  rw [patch, List.foldl_map]

/-- The file of a class goes through the patchers of a pipeline, the first one first. -/
theorem locate_eq_foldl (p : Pipeline) (loader : Loader) (name : String) (file : Path) :
    p.locate loader name file =
      (p.stages.map Prod.snd).foldl (fun file patcher => patcher.locate loader name file)
        file := by
  rw [locate, List.foldl_map]

/-- Whatever was done to a pipeline, its history is all that it answers by. -/
theorem reflects_run (ops : List Operation) : Reflects (historyOf ops) (run ops) := by
  have h := follows_run ops
  generalize historyOf ops = history, run ops = p at h
  exact {
    toFollows := h
    mem_names_iff := h.mem_names_iff
    contains_iff := fun name => (p.mem_names_iff name).symm
    removed_eq := h.find?_eq
    names_remove := fun name => by
      rw [remove, names_erase, h.nodup.erase_eq_filter]
      exact List.filter_congr fun other _ => by
        rw [bne, Bool.beq_eq_decide_eq, decide_not]
    find?_remove := fun name other => by
      rw [remove, find?_erase name other h.nodup, h.find?_eq]
    size_eq := (List.length_map _).symm
    isEmpty_iff := by simp [isEmpty, names, Named.names]
    applied := ⟨p.stages.map Prod.snd, h.map_names, p.patch_eq_foldl, p.locate_eq_foldl,
      fun loader name => congrArg (fun f => (loader name).map f)
        (funext (p.locate_eq_foldl loader name))⟩
    resolve?_eq_none_iff := fun loader name => Option.map_eq_none_iff }

/-- A name that is added again stays where it is, unless it was taken out before. -/
example (p q : Patcher) :
    (run [.add "a" p, .add "b" p, .add "a" q]).names = ["a", "b"] ∧
      (run [.add "a" p, .add "b" p, .remove "a", .add "a" q]).names = ["b", "a"] :=
  ⟨rfl, rfl⟩

end Pinpoint.Pipeline
