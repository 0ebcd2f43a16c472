import Pinpoint.Diff.Common
import Pinpoint.Diff.Edit
import Pinpoint.Diff.Middle
import Pinpoint.Diff.Tidy

/-!
# The script between two lists

`Script.between` is a shortest edit script, tidied, with the removed lines of every block in front
of the added ones. `before_between` and `after_between` say that it stands between its two lists,
and `between_self` that a list becomes itself by keeping every line.
-/

namespace Pinpoint.Diff

variable {α : Type}

namespace Script

/-- Gathers the removed and the added lines of each block, with the lines gathered so far. -/
def gather (removed added : List α) : Script α → Script α
  | [] => replace removed added
  | ⟨.keep, lines⟩ :: rest => replace removed added ++ ⟨.keep, lines⟩ :: gather [] [] rest
  | ⟨.remove, lines⟩ :: rest => gather (removed ++ lines) added rest
  | ⟨.add, lines⟩ :: rest => gather removed (added ++ lines) rest

/-- Gathered edits stand behind the same lines, and those gathered so far. -/
theorem before_gather (removed added : List α) (s : Script α) :
    before (gather removed added s) = removed ++ before s := by
  fun_induction gather removed added s <;> simp_all [Edit.before]

/-- Gathered edits lead to the same lines, and those gathered so far. -/
theorem after_gather (removed added : List α) (s : Script α) :
    after (gather removed added s) = added ++ after s := by
  fun_induction gather removed added s <;> simp_all [Edit.after]

variable [DecidableEq α]

/-- The script of the cores of two lists, cut at the middle of a shortest path again and again. Each
cut leaves less on either side, so `cuts` need not be more than the lines of both lists. -/
def shortest : Nat → List α → List α → Script α
  | 0, old, new => replace old new
  | cuts + 1, old, new =>
    let core := Core.ofLists old new
    let inner :=
      if core.old.isEmpty ∨ core.new.isEmpty then replace core.old core.new
      else
        match middle? core.old core.new with
        | none => replace core.old core.new
        | some (x, y) =>
          shortest cuts (core.old.take x) (core.new.take y) ++
            shortest cuts (core.old.drop x) (core.new.drop y)
    single .keep core.head ++ (inner ++ single .keep core.tail)

/-- A shortest script begins with its first list. -/
theorem before_shortest (cuts : Nat) (old new : List α) :
    before (shortest cuts old new) = old := by
  induction cuts generalizing old new with
  | zero => simp [shortest]
  | succ cuts ih =>
      rw [shortest]
      conv => rhs; rw [← Core.old_eq old new]
      split
      · simp [Edit.before]
      · split <;> simp [Edit.before, ih, ← List.append_assoc (List.take _ _)]

/-- A shortest script ends in its second list. -/
theorem after_shortest (cuts : Nat) (old new : List α) :
    after (shortest cuts old new) = new := by
  induction cuts generalizing old new with
  | zero => simp [shortest]
  | succ cuts ih =>
      rw [shortest]
      conv => rhs; rw [← Core.new_eq old new]
      split
      · simp [Edit.after]
      · split <;> simp [Edit.after, ih, ← List.append_assoc (List.take _ _)]

/-- The script by which one list becomes another. -/
def between (old new : List α) : Script α :=
  gather [] [] (tidy (shortest (old.length + new.length + 1) old new))

/-- The script between two lists begins with the first. -/
theorem before_between (old new : List α) : before (between old new) = old := by
  simp [between, before_gather, before_tidy, before_shortest]

/-- The script between two lists ends in the second. -/
theorem after_between (old new : List α) : after (between old new) = new := by
  simp [between, after_gather, after_tidy, after_shortest]

/-- A list becomes itself by keeping every line. -/
theorem between_self (lines : List α) : between lines lines = single .keep lines := by
  have hcore : Core.ofLists lines lines = ⟨lines, [], [], []⟩ := by
    simp [Core.ofLists, commonStart_self, commonEnd]
  have hshortest (cuts : Nat) : shortest (cuts + 1) lines lines = single .keep lines := by
    simp [shortest, hcore, replace, single]
  cases lines with
  | nil => simp [between, hshortest, single, tidy, settleAll, settleFrom, gather, replace]
  | cons line rest =>
      simp [between, hshortest, single, tidy, settleAll, settleFrom, gather, replace, weight]

end Script

end Pinpoint.Diff
