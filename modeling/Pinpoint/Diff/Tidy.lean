import Pinpoint.Diff.Common
import Pinpoint.Diff.Edit

/-!
# Tidy edit scripts

Where lines repeat, added lines can be told from kept ones in more than one way. `tidy` moves each
edit up and down as far as it goes, and joins it with the edits of its kind that it comes to.
`before_tidy` and `after_tidy` say that the script still stands between the same lists.
-/

namespace Pinpoint.Diff

variable {α : Type}

namespace Script

/-- The lines of a script, and one more for each edit. -/
def weight : Script α → Nat
  | [] => 0
  | e :: s => e.lines.length + 1 + weight s

/-- An edit weighs one more than its lines. -/
@[simp] theorem weight_cons (e : Edit α) (s : Script α) :
    weight (e :: s) = e.lines.length + 1 + weight s := rfl

/-- Two scripts, one behind the other, weigh as much as both. -/
@[simp] theorem weight_append (s t : Script α) : weight (s ++ t) = weight s + weight t := by
  induction s with
  | nil => simp [weight]
  | cons e s ih => simp only [List.cons_append, weight_cons, ih, Nat.add_assoc]

/-- A script of one edit weighs at most one more than its lines. -/
theorem weight_single_le (mark : Mark) (lines : List α) :
    weight (single mark lines) ≤ lines.length + 1 := by
  cases lines <;> simp [single, weight]

/-- Puts kept lines in front of a script. -/
def keepFirst (lines : List α) : Script α → Script α
  | ⟨.keep, more⟩ :: rest => ⟨.keep, lines ++ more⟩ :: rest
  | script => ⟨.keep, lines⟩ :: script

/-- Kept lines put in front of a script stand in front of the lines before it. -/
@[simp] theorem before_keepFirst (lines : List α) (s : Script α) :
    before (keepFirst lines s) = lines ++ before s := by
  fun_cases keepFirst lines s <;> simp [Edit.before]

/-- Kept lines put in front of a script stand in front of the lines after it. -/
@[simp] theorem after_keepFirst (lines : List α) (s : Script α) :
    after (keepFirst lines s) = lines ++ after s := by
  fun_cases keepFirst lines s <;> simp [Edit.after]

/-- Puts kept lines behind a script that has its last edit first. -/
def keepLast (lines : List α) : Script α → Script α
  | ⟨.keep, more⟩ :: rest => ⟨.keep, more ++ lines⟩ :: rest
  | script => ⟨.keep, lines⟩ :: script

/-- Kept lines put behind a script stand behind the lines before it. -/
@[simp] theorem before_reverse_keepLast (lines : List α) (s : Script α) :
    before (keepLast lines s).reverse = before s.reverse ++ lines := by
  fun_cases keepLast lines s <;> simp [Edit.before]

/-- Kept lines put behind a script stand behind the lines after it. -/
@[simp] theorem after_reverse_keepLast (lines : List α) (s : Script α) :
    after (keepLast lines s).reverse = after s.reverse ++ lines := by
  fun_cases keepLast lines s <;> simp [Edit.after]

end Script

open Script

/-- A script with one of its edits in view. -/
structure Focus (α : Type) where
  /-- The edits above, the nearest first. -/
  above : Script α
  edit : Edit α
  below : Script α

namespace Focus

def toScript (z : Focus α) : Script α := z.above.reverse ++ z.edit :: z.below

variable [DecidableEq α]

/-- Moves the edit in view up: it changes places with an edit of the other kind, and joins one of
its own. Added lines pass kept lines that end as they do; removed lines stay below kept ones. -/
def up (above : Script α) (edit : Edit α) (below : Script α) : Focus α :=
  match above with
  | [] => ⟨[], edit, below⟩
  | next :: rest =>
    match next.mark, edit.mark with
    | .remove, .remove => up rest ⟨.remove, next.lines ++ edit.lines⟩ below
    | .add, .add => up rest ⟨.add, next.lines ++ edit.lines⟩ below
    | .remove, .add => up rest edit (next :: below)
    | .add, .remove => up rest edit (next :: below)
    | .keep, .add =>
      let shared := commonEnd next.lines edit.lines
      if _ : shared = 0 then ⟨next :: rest, edit, below⟩
      else
        let moved := next.lines.drop (next.lines.length - shared)
        up (single .keep (next.lines.take (next.lines.length - shared)) ++ rest)
          ⟨.add, moved ++ edit.lines.take (edit.lines.length - shared)⟩ (keepFirst moved below)
    | _, _ => ⟨next :: rest, edit, below⟩
termination_by weight above
decreasing_by
  all_goals simp only [weight_cons, weight_append]
  all_goals try omega
  have hle := commonEnd_le next.lines edit.lines
  have hkeep := weight_single_le .keep
    (next.lines.take (next.lines.length - commonEnd next.lines edit.lines))
  simp only [List.length_take] at hkeep
  omega

/-- Moves the edit in view down, in the same ways. -/
def down (above : Script α) (edit : Edit α) (below : Script α) : Focus α :=
  match below with
  | [] => ⟨above, edit, []⟩
  | next :: rest =>
    match next.mark, edit.mark with
    | .remove, .remove => down above ⟨.remove, edit.lines ++ next.lines⟩ rest
    | .add, .add => down above ⟨.add, edit.lines ++ next.lines⟩ rest
    | .remove, .add => down (next :: above) edit rest
    | .add, .remove => down (next :: above) edit rest
    | .keep, .add =>
      let shared := commonStart next.lines edit.lines
      if _ : shared = 0 then ⟨above, edit, next :: rest⟩
      else
        let moved := next.lines.take shared
        down (keepLast moved above) ⟨.add, edit.lines.drop shared ++ moved⟩
          (single .keep (next.lines.drop shared) ++ rest)
    | _, _ => ⟨above, edit, next :: rest⟩
termination_by weight below
decreasing_by
  all_goals simp only [weight_cons, weight_append]
  all_goals try omega
  have hle := commonStart_le next.lines edit.lines
  have hkeep := weight_single_le .keep (next.lines.drop (commonStart next.lines edit.lines))
  simp only [List.length_drop] at hkeep
  omega

/-- An edit that moves up leaves the lines before the script as they are. -/
theorem before_up (above : Script α) (edit : Edit α) (below : Script α) :
    before (up above edit below).toScript = before (Focus.mk above edit below).toScript := by
  fun_induction up above edit below
  case case7 edit below next rest hadd hkeep shared h moved ih =>
    rw [ih]
    have hnext : next.lines.take (next.lines.length - shared) ++ moved = next.lines :=
      List.take_append_drop ..
    simp only [toScript, Edit.before, hadd, hkeep, before_append, before_cons, before_single,
      before_keepFirst, List.reverse_append, List.reverse_cons, List.append_assoc, reverse_single,
      before_nil, List.nil_append, List.append_cancel_left_eq]
    rw [← List.append_assoc, hnext]
  all_goals simp_all [toScript, Edit.before]

/-- An edit that moves up leaves the lines after the script as they are. -/
theorem after_up (above : Script α) (edit : Edit α) (below : Script α) :
    after (up above edit below).toScript = after (Focus.mk above edit below).toScript := by
  fun_induction up above edit below
  case case7 edit below next rest hadd hkeep shared h moved ih =>
    rw [ih]
    have hnext : next.lines.take (next.lines.length - shared) ++ moved = next.lines :=
      List.take_append_drop ..
    have hedit : edit.lines.take (edit.lines.length - shared) ++ moved = edit.lines := by
      simp only [moved, shared, drop_commonEnd, List.take_append_drop]
    simp only [toScript, Edit.after, hadd, hkeep, after_append, after_cons, after_single,
      after_keepFirst, List.reverse_append, List.reverse_cons, List.append_assoc, reverse_single,
      after_nil, List.nil_append, List.append_cancel_left_eq]
    rw [← List.append_assoc, hnext, ← List.append_assoc _ moved, hedit]
  all_goals simp_all [toScript, Edit.after]

/-- An edit that moves down leaves the lines before the script as they are. -/
theorem before_down (above : Script α) (edit : Edit α) (below : Script α) :
    before (down above edit below).toScript = before (Focus.mk above edit below).toScript := by
  fun_induction down above edit below
  case case7 above edit next rest hadd hkeep shared h moved ih =>
    rw [ih]
    have hnext : moved ++ next.lines.drop shared = next.lines := List.take_append_drop ..
    simp only [toScript, Edit.before, hadd, hkeep, before_append, before_cons, before_single,
      before_reverse_keepLast, List.append_assoc, List.nil_append, List.append_cancel_left_eq]
    rw [← List.append_assoc, hnext]
  all_goals simp_all [toScript, Edit.before]

/-- An edit that moves down leaves the lines after the script as they are. -/
theorem after_down (above : Script α) (edit : Edit α) (below : Script α) :
    after (down above edit below).toScript = after (Focus.mk above edit below).toScript := by
  fun_induction down above edit below
  case case7 above edit next rest hadd hkeep shared h moved ih =>
    rw [ih]
    have hnext : moved ++ next.lines.drop shared = next.lines := List.take_append_drop ..
    have hedit : moved ++ edit.lines.drop shared = edit.lines := by
      simp only [moved, shared, take_commonStart, List.take_append_drop]
    simp only [toScript, Edit.after, hadd, hkeep, after_append, after_cons, after_single,
      after_reverse_keepLast, List.append_assoc, List.append_cancel_left_eq]
    rw [← List.append_assoc, hedit, ← List.append_assoc moved, hnext]
  all_goals simp_all [toScript, Edit.after]

/-- Moves the edit in view up and then down. -/
def settle (z : Focus α) : Focus α :=
  let z := up z.above z.edit z.below
  down z.above z.edit z.below

/-- An edit that settles leaves the lines before the script as they are. -/
theorem before_settle (z : Focus α) : before z.settle.toScript = before z.toScript :=
  (before_down ..).trans (before_up ..)

/-- An edit that settles leaves the lines after the script as they are. -/
theorem after_settle (z : Focus α) : after z.settle.toScript = after z.toScript :=
  (after_down ..).trans (after_up ..)

end Focus

variable [DecidableEq α]

/-- Settles the edits of one mark from some place of a script on, at most `steps` places further. -/
def settleFrom (mark : Mark) : Nat → Script α → Script α → Script α
  | steps + 1, above, edit :: below =>
    if edit.mark = mark then
      let z := Focus.settle ⟨above, edit, below⟩
      settleFrom mark steps (z.edit :: z.above) z.below
    else settleFrom mark steps (edit :: above) below
  | _, above, below => above.reverse ++ below

/-- The edits of one mark settle without changing the lines before the script. -/
theorem before_settleFrom (mark : Mark) (steps : Nat) (above below : Script α) :
    before (settleFrom mark steps above below) = before above.reverse ++ before below := by
  fun_induction settleFrom mark steps above below
  case case1 steps above edit below hmark z ih =>
    rw [ih]
    simpa [Focus.toScript, z] using Focus.before_settle ⟨above, edit, below⟩
  all_goals simp_all

/-- The edits of one mark settle without changing the lines after the script. -/
theorem after_settleFrom (mark : Mark) (steps : Nat) (above below : Script α) :
    after (settleFrom mark steps above below) = after above.reverse ++ after below := by
  fun_induction settleFrom mark steps above below
  case case1 steps above edit below hmark z ih =>
    rw [ih]
    simpa [Focus.toScript, z] using Focus.after_settle ⟨above, edit, below⟩
  all_goals simp_all

/-- Settles the edits of one mark. An edit passes what lies below it once, so there are no more
steps than lines and edits. -/
def settleAll (mark : Mark) (s : Script α) : Script α := settleFrom mark s.weight [] s

/-- Settles the removed lines, and then the added ones. -/
def tidy (s : Script α) : Script α := settleAll .add (settleAll .remove s)

/-- A tidy script stands between the same lists. -/
theorem before_tidy (s : Script α) : before (tidy s) = before s := by
  simp [tidy, settleAll, before_settleFrom]

/-- A tidy script ends in the same lines. -/
theorem after_tidy (s : Script α) : after (tidy s) = after s := by
  simp [tidy, settleAll, after_settleFrom]

end Pinpoint.Diff
