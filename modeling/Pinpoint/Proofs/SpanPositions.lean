import Mathlib.Logic.Function.Iterate
import Pinpoint.Pipeline
import Pinpoint.Proofs.SpanBodies

/-!
# Trees position by position

A position of a tree says which child to step into, level by level. `Span.own` is what the span at a
position has apart from the spans inside it, so trees that agree on it at every position have the
same shape and the same bodies. `pinning_own_at` says what pinning leaves at each position: all but
the bodies of eligible spans, whatever lies above, beside and below them.
-/

namespace Pinpoint.Span

/-- What a span has of its own: all but the spans inside it, of which only the number counts. -/
structure Own where
  kind : SpanKind
  body : String
  processable : Bool
  children : Nat
deriving Repr, DecidableEq

def own (s : Span) : Own := ⟨s.kind, s.body, s.processable, s.children.length⟩

/-- The span at a position: the indices of the children to step into, the outermost first. -/
def at? : Span → List Nat → Option Span
  | s, [] => some s
  | s, i :: position => s.children[i]?.bind fun child => child.at? position

/-! ## Changes of bodies -/

/-- The trees of a list get their bodies one by one. -/
theorem mapBodiesAll_eq_map (f : Span → String) (ss : List Span) :
    mapBodiesAll f ss = ss.map (mapBodies f) := by
  induction ss with
  | nil => rfl
  | cons s rest ih => rw [mapBodiesAll, ih, List.map_cons]

/-- The children of a span get their bodies as trees of their own. -/
theorem children_mapBodies (f : Span → String) (s : Span) :
    (mapBodies f s).children = s.children.map (mapBodies f) := by
  cases s with
  | mk kind body processable children => exact mapBodiesAll_eq_map f children

/-- A span that gets a body keeps the rest of what is its own. -/
theorem own_mapBodies (f : Span → String) (s : Span) :
    (mapBodies f s).own = { s.own with body := f s } := by
  rw [own, children_mapBodies, List.length_map]
  cases s
  rfl

/-- A change of the bodies reaches every position by itself. -/
theorem at_mapBodies (f : Span → String) (s : Span) (position : List Nat) :
    (mapBodies f s).at? position = (s.at? position).map (mapBodies f) := by
  induction position generalizing s with
  | nil => rfl
  | cons i position ih =>
      rw [at?, at?, children_mapBodies, List.getElem?_map]
      cases s.children[i]? with
      | none => rfl
      | some child => exact ih child

/-- At each position a body is what is answered for the span that was there, and the rest is kept.
-/
theorem own_at_mapBodies (f : Span → String) (s : Span) (position : List Nat) :
    ((mapBodies f s).at? position).map own =
      (s.at? position).map fun t => { t.own with body := f t } := by
  rw [at_mapBodies, Option.map_map]
  exact congrArg (fun g => (s.at? position).map g) (funext (own_mapBodies f))

mutual

/-- Bodies that stay as they are change no tree. -/
theorem mapBodies_body (s : Span) : mapBodies body s = s := by
  cases s with
  | mk kind body processable children => rw [mapBodies, mapBodiesAll_body children]

/-- Bodies that stay as they are change no list of trees. -/
theorem mapBodiesAll_body (ss : List Span) : mapBodiesAll body ss = ss := by
  cases ss with
  | nil => rfl
  | cons s rest => rw [mapBodiesAll, mapBodies_body s, mapBodiesAll_body rest]

end

/-- To change no body is to change nothing. -/
theorem mapEligible_id (s : Span) : mapEligible id s = s := by
  have hbody : eligibleBody id = body := by
    funext t
    simp [eligibleBody]
  rw [mapEligible_eq, hbody, mapBodies_body]

/-! ## Walks with a state -/

mutual

/-- A walk whose answers do not depend on its state changes every body by itself; the state goes
through the spans in source order. -/
theorem mapAccum_eq {σ : Type} (next : σ → Span → σ) (f : Span → String) (state : σ) (s : Span) :
    mapAccum (fun state t => (next state t, f t)) state s =
      (s.toList.foldl next state, mapBodies f s) := by
  cases s with
  | mk kind body processable children =>
      rw [mapAccum]
      dsimp only
      rw [mapAccumAll_eq next f _ children, toList_eq, List.foldl_cons, mapBodies]

/-- A walk whose bodies do not depend on its state goes through a list and gives each span its body.
-/
theorem mapAccumAll_eq {σ : Type} (next : σ → Span → σ) (f : Span → String) (state : σ)
    (ss : List Span) :
    mapAccumAll (fun state t => (next state t, f t)) state ss =
      ((ss.flatMap toList).foldl next state, mapBodiesAll f ss) := by
  cases ss with
  | nil => rfl
  | cons s rest =>
      rw [mapAccumAll, mapAccum_eq next f state s]
      dsimp only
      rw [mapAccumAll_eq next f _ rest, List.flatMap_cons, List.foldl_append, mapBodiesAll]

end

end Pinpoint.Span

namespace Pinpoint.Patcher

open Pinpoint.Span (own eligibleBody)

/-- One step of a walk that pins the eligible spans and counts what it pins. -/
def pinSpan (file : Path) (count : Nat) (s : Span) : Nat × String :=
  if s.isEligible then
    let (body, more) := Marker.pinString file s.body
    (count + more, body)
  else (count, s.body)

/-- The body that pinning a tree gives a span, whatever the tree around it. -/
def pinnedBody (file : Path) (body : String) : String := (Marker.pinString file body).1

/-- A walk that counts adds up what the eligible spans hold. -/
theorem foldl_pinSpan (file : Path) (count : Nat) (spans : List Span) :
    spans.foldl (fun count s => (pinSpan file count s).1) count =
      ((spans.filter Span.isEligible).map fun s => (Marker.pinString file s.body).2).foldl (· + ·)
        count := by
  induction spans generalizing count with
  | nil => rfl
  | cons s rest ih =>
      rw [List.foldl_cons, ih]
      by_cases h : s.isEligible = true
      · simp [pinSpan, h]
      · simp [pinSpan, h]

/-- Walking through a tree with a running count pins it, and counts the markers of its eligible
spans. -/
theorem mapAccum_pinSpan (file : Path) (tree : Span) :
    tree.mapAccum (pinSpan file) 0 =
      ((pinCounts file tree).foldl (· + ·) 0, pinTree file tree) := by
  have hstep : pinSpan file = fun count s =>
      ((pinSpan file count s).1, eligibleBody (pinnedBody file) s) := by
    funext count s
    by_cases h : s.isEligible = true
    · simp [pinSpan, eligibleBody, pinnedBody, h]
    · simp [pinSpan, eligibleBody, h]
  rw [hstep, Span.mapAccum_eq, foldl_pinSpan]
  rfl

/-- A row of pinning patchers is one change of the eligible bodies, repeated as often. -/
theorem patch_pinnings (file : Path) (names : List String) (tree : Span) :
    (Pipeline.mk (names.map fun name => (name, pinning))).patch file tree =
      tree.mapEligible (pinnedBody file)^[names.length] := by
  induction names generalizing tree with
  | nil => exact (Span.mapEligible_id tree).symm
  | cons name rest ih =>
      calc (Pipeline.mk ((name :: rest).map fun name => (name, pinning))).patch file tree
          = (Pipeline.mk (rest.map fun name => (name, pinning))).patch file
              (tree.mapEligible (pinnedBody file)) := rfl
        _ = tree.mapEligible ((pinnedBody file)^[rest.length] ∘ pinnedBody file) := by
            rw [ih, Span.mapEligible_mapEligible]
        _ = tree.mapEligible (pinnedBody file)^[(name :: rest).length] := rfl

/-! ## Main statement -/

/-- Pinning a tree, which is a walk through it with a running count, leaves every position with the
kind, the mark and the number of children that it had, and pins its body if the span there is code
and may be changed. A pipeline of pinning patchers does so as often as it has patchers. -/
theorem pinning_own_at (file : Path) (tree : Span) :
    tree.mapAccum (pinSpan file) 0 =
        ((pinCounts file tree).foldl (· + ·) 0, pinning.patch file tree) ∧
      (∀ position, ((pinning.patch file tree).at? position).map own =
        (tree.at? position).map fun s =>
          { s.own with
            body := if s.kind = .code ∧ s.processable then (Marker.pinString file s.body).1
              else s.body }) ∧
      ∀ (names : List String) position,
        (((Pipeline.mk (names.map fun name => (name, pinning))).patch file tree).at? position).map
            own =
          (tree.at? position).map fun s =>
            { s.own with
              body := if s.kind = .code ∧ s.processable then
                  (fun body => (Marker.pinString file body).1)^[names.length] s.body
                else s.body } := by
  have hbody (f : String → String) (s : Span) :
      eligibleBody f s = if s.kind = .code ∧ s.processable then f s.body else s.body := by
    simp [eligibleBody, Span.isEligible]
  refine ⟨mapAccum_pinSpan file tree, fun position => ?_, fun names position => ?_⟩
  · change ((tree.mapBodies (eligibleBody (pinnedBody file))).at? position).map own = _
    rw [Span.own_at_mapBodies]
    simp only [hbody, pinnedBody]
  · rw [patch_pinnings, Span.mapEligible_eq, Span.own_at_mapBodies]
    simp only [hbody]
    rfl

end Pinpoint.Patcher
