/-!
# Edit scripts

An edit script tells how one list of lines becomes another: which lines stay, which go and which
come. `Script.before` and `Script.after` are the two lists that a script stands between.
-/

namespace Pinpoint.Diff

/-- What becomes of some lines. -/
inductive Mark where
  | keep
  | remove
  | add
deriving Repr, DecidableEq

/-- Neighbouring lines with one fate. -/
structure Edit (α : Type) where
  mark : Mark
  lines : List α
deriving Repr, DecidableEq

/-- Edits in the order of the lines. -/
abbrev Script (α : Type) := List (Edit α)

variable {α : Type}

namespace Edit

/-- The lines of an edit that were there before. -/
def before (e : Edit α) : List α :=
  match e.mark with
  | .add => []
  | _ => e.lines

/-- The lines of an edit that are there afterwards. -/
def after (e : Edit α) : List α :=
  match e.mark with
  | .remove => []
  | _ => e.lines

end Edit

namespace Script

/-- The lines before the edits. -/
def before (s : Script α) : List α := s.flatMap Edit.before

/-- The lines after the edits. -/
def after (s : Script α) : List α := s.flatMap Edit.after

/-- Before no edits there are no lines. -/
@[simp] theorem before_nil : before ([] : Script α) = [] := rfl

/-- After no edits there are no lines. -/
@[simp] theorem after_nil : after ([] : Script α) = [] := rfl

/-- The lines before a script are those of its first edit and then of the others. -/
@[simp] theorem before_cons (e : Edit α) (s : Script α) :
    before (e :: s) = e.before ++ before s := rfl

/-- The lines after a script are those of its first edit and then of the others. -/
@[simp] theorem after_cons (e : Edit α) (s : Script α) :
    after (e :: s) = e.after ++ after s := rfl

/-- The lines before two scripts stand one behind the other. -/
@[simp] theorem before_append (s t : Script α) : before (s ++ t) = before s ++ before t := by
  simp [before]

/-- The lines after two scripts stand one behind the other. -/
@[simp] theorem after_append (s t : Script α) : after (s ++ t) = after s ++ after t := by
  simp [after]

/-- The script of a single edit, or of none if it has no lines. -/
def single (mark : Mark) (lines : List α) : Script α :=
  if lines.isEmpty then [] else [⟨mark, lines⟩]

/-- The lines before a script of one edit are those before the edit, also if it has none. -/
@[simp] theorem before_single (mark : Mark) (lines : List α) :
    before (single mark lines) = (Edit.mk mark lines).before := by
  cases lines <;> cases mark <;> simp [single, Edit.before]

/-- The lines after a script of one edit are those after the edit, also if it has none. -/
@[simp] theorem after_single (mark : Mark) (lines : List α) :
    after (single mark lines) = (Edit.mk mark lines).after := by
  cases lines <;> cases mark <;> simp [single, Edit.after]

/-- A script of one edit at most is the same from behind. -/
@[simp] theorem reverse_single (mark : Mark) (lines : List α) :
    (single mark lines).reverse = single mark lines := by
  cases lines <;> simp [single]

/-- Removes all lines of one list and adds those of the other. -/
def replace (old new : List α) : Script α := single .remove old ++ single .add new

/-- The lines before a replacement are those replaced. -/
@[simp] theorem before_replace (old new : List α) : before (replace old new) = old := by
  simp [replace, Edit.before]

/-- The lines after a replacement are those that replace them. -/
@[simp] theorem after_replace (old new : List α) : after (replace old new) = new := by
  simp [replace, Edit.after]

end Script

end Pinpoint.Diff
