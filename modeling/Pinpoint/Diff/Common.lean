/-!
# Common ends of two lists

`Core.ofLists` cuts off what two lists have in common at their beginnings, and then at their ends.
`old_eq` and `new_eq` say that the parts make up the lists.
-/

namespace Pinpoint.Diff

variable {α : Type} [DecidableEq α]

/-- How many elements two lists have in common at their beginnings. -/
def commonStart : List α → List α → Nat
  | x :: xs, y :: ys => if x = y then commonStart xs ys + 1 else 0
  | _, _ => 0

/-- How many elements two lists have in common at their ends. -/
def commonEnd (xs ys : List α) : Nat := commonStart xs.reverse ys.reverse

/-- A list has a common start with itself, all of it. -/
theorem commonStart_self (xs : List α) : commonStart xs xs = xs.length := by
  induction xs <;> simp_all [commonStart]

/-- Two lists begin with the same lines as far as their common start goes. -/
theorem take_commonStart (xs ys : List α) :
    xs.take (commonStart xs ys) = ys.take (commonStart xs ys) := by
  fun_induction commonStart xs ys with
  | case1 x xs ys ih => simp [ih]
  | case2 x xs y ys h => rfl
  | case3 xs ys h => rfl

/-- Two lists end in the same lines as far as their common end goes. -/
theorem drop_commonEnd (xs ys : List α) :
    xs.drop (xs.length - commonEnd xs ys) = ys.drop (ys.length - commonEnd xs ys) := by
  have h := congrArg List.reverse (take_commonStart xs.reverse ys.reverse)
  simpa [commonEnd, List.reverse_take] using h

/-- A common start is no longer than the list. -/
theorem commonStart_le (xs ys : List α) : commonStart xs ys ≤ xs.length := by
  fun_induction commonStart xs ys <;> simp_all

/-- A common end is no longer than the list. -/
theorem commonEnd_le (xs ys : List α) : commonEnd xs ys ≤ xs.length := by
  simpa [commonEnd] using commonStart_le xs.reverse ys.reverse

/-- Two lists without what they have in common at their ends. -/
structure Core (α : Type) where
  head : List α
  old : List α
  new : List α
  tail : List α

namespace Core

/-- Cuts off a common beginning, and then a common end. -/
def ofLists (old new : List α) : Core α :=
  let start := commonStart old new
  let oldRest := old.drop start
  let newRest := new.drop start
  let stop := commonEnd oldRest newRest
  { head := old.take start
    old := oldRest.take (oldRest.length - stop)
    new := newRest.take (newRest.length - stop)
    tail := oldRest.drop (oldRest.length - stop) }

/-- The first list is its core between the lines that both have. -/
theorem old_eq (old new : List α) :
    (ofLists old new).head ++ ((ofLists old new).old ++ (ofLists old new).tail) = old := by
  simp only [ofLists, List.take_append_drop]

/-- The second list is its core between the lines that both have. -/
theorem new_eq (old new : List α) :
    (ofLists old new).head ++ ((ofLists old new).new ++ (ofLists old new).tail) = new := by
  simp only [ofLists]
  rw [drop_commonEnd, List.take_append_drop, take_commonStart, List.take_append_drop]

end Core

end Pinpoint.Diff
