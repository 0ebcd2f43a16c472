import Pinpoint.ClassIndex
import Pinpoint.Log.Event
import Pinpoint.Marker
import Pinpoint.Span.Basic

/-!
# Patchers

A patcher may send a class to another file, and may change the bodies of the tree that was read
from a file. `Patcher.pinning` pins the markers of every eligible span to that file.
-/

namespace Pinpoint

/-- A step that source code goes through before it runs. -/
structure Patcher where
  /-- The file to read for a class, given the file proposed so far. -/
  locate : Loader → String → Path → Path := fun _ _ file => file
  /-- The tree read from a file, after the step. -/
  patch : Path → Span → Span
  /-- What the step tells of its work on a tree. -/
  events : Path → Span → List Event := fun _ _ => []

namespace Patcher

/-- The numbers of markers to pin in the eligible spans of a tree, in source order. -/
def pinCounts (file : Path) (tree : Span) : List Nat :=
  (tree.toList.filter Span.isEligible).map fun s => (Marker.pinString file s.body).2

/-- Tells of every span with a pinned marker, and then of the whole tree. -/
def pinEvents (file : Path) (tree : Span) : List Event :=
  let counts := (pinCounts file tree).filter (0 < ·)
  counts.map (fun count =>
      ⟨.trace, "jit_rebase::patcher::rebase", "rebased markers in code span",
        [("count", toString count)]⟩) ++
    [⟨.debug, "jit_rebase::patcher::rebase", "rebase pass complete",
      [("path", file.display), ("rewritten", toString (counts.foldl (· + ·) 0))]⟩]

/-- Pins the markers in every eligible span of a tree. -/
def pinTree (file : Path) (tree : Span) : Span :=
  tree.mapEligible fun body => (Marker.pinString file body).1

/-- The patcher that pins location markers. -/
def pinning : Patcher where
  patch := pinTree
  events := pinEvents

end Patcher

end Pinpoint
