import Pinpoint.Text.Style

/-!
# Outcomes of specs

An outcome is what became of one spec of a test run. `Tally` counts outcomes by kind, and
`Tally.display` writes the counts.
-/

namespace Pinpoint

/-- What became of a spec. -/
inductive Outcome where
  | pass
  | fail
  | exception
  | skip
  | incomplete
deriving Repr, DecidableEq

namespace Outcome

/-- The outcomes under the names that records give them. -/
def named : List (String × Outcome) :=
  [("pass", pass), ("fail", fail), ("exception", exception), ("skip", skip),
    ("incomplete", incomplete)]

/-- The mark of an outcome on a progress line. -/
def glyph : Outcome → String
  | pass => "."
  | fail => "F"
  | exception => "E"
  | skip => "S"
  | incomplete => "I"

def style? : Outcome → Option Style
  | pass => none
  | fail => some .red
  | exception => some .magenta
  | skip => some .cyan
  | incomplete => some .yellow

/-- Whether a run tells of the outcome in detail. -/
def isNotable : Outcome → Bool
  | pass | skip => false
  | fail | exception | incomplete => true

/-- What the outcome is called. -/
def display : Outcome → String
  | pass => "pass"
  | fail => "failure"
  | exception => "exception"
  | skip => "skipped"
  | incomplete => "incomplete"

/-- The label of an outcome that is told in detail. -/
def label : Outcome → String
  | pass => "[PASS]"
  | fail => "[FAILURE]"
  | exception => "[EXCEPTION]"
  | skip => "[SKIPPED]"
  | incomplete => "[INCOMPLETE]"

end Outcome

/-- How many outcomes there were of each kind. -/
structure Tally where
  passed : Nat
  failed : Nat
  errored : Nat
  skipped : Nat
  incomplete : Nat
deriving Repr, DecidableEq

namespace Tally

def zero : Tally := ⟨0, 0, 0, 0, 0⟩

/-- Counts one outcome more. -/
def record (t : Tally) : Outcome → Tally
  | .pass => { t with passed := t.passed + 1 }
  | .fail => { t with failed := t.failed + 1 }
  | .exception => { t with errored := t.errored + 1 }
  | .skip => { t with skipped := t.skipped + 1 }
  | .incomplete => { t with incomplete := t.incomplete + 1 }

/-- The tally of some outcomes. -/
def ofList (outcomes : List Outcome) : Tally := outcomes.foldl record zero

/-- The number of specs that ran. -/
def executed (t : Tally) : Nat := t.passed + t.failed + t.errored + t.incomplete

/-- Whether nothing failed. -/
def isSuccess (t : Tally) : Bool := t.failed == 0 && t.errored == 0

/-- The counts of what did not pass, where there is something to say of them. -/
def detail (t : Tally) : String :=
  if t.isSuccess && t.incomplete == 0 then ""
  else " (FAILURE: " ++ toString t.failed ++ ", EXCEPTION: " ++ toString t.errored ++
    ", INCOMPLETE: " ++ toString t.incomplete ++ ")"

/-- The line that tells of a tally. -/
def display (t : Tally) : String :=
  "Passed " ++ toString t.passed ++ " of " ++ toString t.executed ++
    (if t.isSuccess then " PASS" else " FAIL") ++ t.detail ++
    (if t.skipped = 0 then "" else ", " ++ toString t.skipped ++ " skipped")

end Tally

end Pinpoint
