import Pinpoint.Span.Basic

/-!
# Walks that reword a tree

A `Rewording` is a step that may change the body of a span and of the spans inside it, and nothing
else: it keeps the skeleton. `Span.walk` takes it through a tree, each span before those inside it,
so a span comes as the steps before it left it. `Rewording.ofBody` is the case of a step that
changes only the body of the span that it is at.
-/

namespace Pinpoint

namespace Span

/-- A tree without its texts. -/
def skeleton (s : Span) : Span := s.mapBodies fun _ => ""

/-- The size of a tree counts its root and the spans inside. -/
theorem size_eq (s : Span) : s.size = 1 + sizeAll s.children := by
  cases s
  rfl

mutual

/-- A tree with other bodies has the same size. -/
theorem size_mapBodies (f : Span → String) (s : Span) : (mapBodies f s).size = s.size := by
  cases s with
  | mk kind body processable children =>
      rw [mapBodies, size, size, sizeAll_mapBodiesAll f children]

/-- A list of trees with other bodies has the same size. -/
theorem sizeAll_mapBodiesAll (f : Span → String) (ss : List Span) :
    sizeAll (mapBodiesAll f ss) = sizeAll ss := by
  cases ss with
  | nil => rfl
  | cons s rest =>
      rw [mapBodiesAll, sizeAll, sizeAll, size_mapBodies f s, sizeAll_mapBodiesAll f rest]

end

/-- Trees of one skeleton have one size. -/
theorem size_eq_of_skeleton_eq {s t : Span} (h : s.skeleton = t.skeleton) : s.size = t.size := by
  rw [← size_mapBodies (fun _ => "") s, ← size_mapBodies (fun _ => "") t]
  exact congrArg size h

end Span

/-- A step at a span, with a state of its own, that changes bodies only: those of the span and of
the spans inside it. -/
structure Rewording (σ : Type) where
  act : σ → Span → σ × Span
  skeleton_act : ∀ state s, (act state s).2.skeleton = s.skeleton

namespace Rewording

/-- Gives a span the body that `f` answers. -/
def ofBody {σ : Type} (f : σ → Span → σ × String) : Rewording σ where
  act state s := ((f state s).1, { s with body := (f state s).2 })
  skeleton_act _ s := by cases s; rfl

end Rewording

namespace Span

mutual

/-- Goes over the spans of a tree, each before those inside it, and rewords each. -/
def walk {σ : Type} (r : Rewording σ) (state : σ) (s : Span) : σ × Span :=
  let reworded := r.act state s
  let inside := walkAll r reworded.1 reworded.2.children
  (inside.1, { reworded.2 with children := inside.2 })
termination_by 2 * s.size
decreasing_by
  have hsize := size_eq_of_skeleton_eq (r.skeleton_act state s)
  rw [size_eq (r.act state s).2] at hsize
  omega

def walkAll {σ : Type} (r : Rewording σ) (state : σ) (ss : List Span) : σ × List Span :=
  match ss with
  | [] => (state, [])
  | s :: rest =>
    let first := walk r state s
    let others := walkAll r first.1 rest
    (others.1, first.2 :: others.2)
termination_by 2 * sizeAll ss + 1
decreasing_by
  · rw [sizeAll]
    omega
  · rw [sizeAll, size_eq s]
    omega

end

end Span

end Pinpoint
