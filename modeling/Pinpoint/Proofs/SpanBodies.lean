import Pinpoint.Span.Basic

/-!
# Changing the bodies of a tree

`Span.mapBodies` gives each span of a tree a new body and leaves all else. `mapBodies_eq_iff` says
that the new tree tells the new bodies apart, span by span, and `mapEligible_mapEligible` that two
changes of the eligible bodies are one.
-/

namespace Pinpoint.Span

mutual

/-- The spans of a tree do not depend on the depth that it is listed at. -/
theorem map_outlineAt (depth : Nat) (s : Span) :
    (outlineAt depth s).map Prod.snd = s :: s.children.flatMap toList := by
  cases s with
  | mk kind body processable children =>
      simp [outlineAt, map_outlineAll (depth + 1) children]

/-- The outline of a list of trees lists their spans. -/
theorem map_outlineAll (depth : Nat) (ss : List Span) :
    (outlineAll depth ss).map Prod.snd = ss.flatMap toList := by
  cases ss with
  | nil => simp [outlineAll]
  | cons s rest =>
      rw [outlineAll, List.map_append, map_outlineAt depth s, map_outlineAll depth rest,
        List.flatMap_cons, toList, outline, map_outlineAt 0 s]

end

/-- A tree is its first span and the trees inside it. -/
theorem toList_eq (s : Span) : s.toList = s :: s.children.flatMap toList :=
  map_outlineAt 0 s

mutual

/-- Two changes of the bodies agree on a tree exactly if they agree on each of its spans. -/
theorem mapBodies_eq_iff (f g : Span → String) (s : Span) :
    mapBodies f s = mapBodies g s ↔ ∀ t ∈ s.toList, f t = g t := by
  cases s with
  | mk kind body processable children =>
      rw [toList_eq, List.forall_mem_cons, ← mapBodiesAll_eq_iff f g children]
      simp [mapBodies]

/-- Two ways to give bodies to a list of trees agree exactly if they agree on each span. -/
theorem mapBodiesAll_eq_iff (f g : Span → String) (ss : List Span) :
    mapBodiesAll f ss = mapBodiesAll g ss ↔ ∀ t ∈ ss.flatMap toList, f t = g t := by
  cases ss with
  | nil => simp [mapBodiesAll]
  | cons s rest =>
      rw [mapBodiesAll, mapBodiesAll, List.cons.injEq, mapBodies_eq_iff f g s,
        mapBodiesAll_eq_iff f g rest, List.flatMap_cons, List.forall_mem_append]

end

/-- What a change of eligible bodies gives a span. -/
def eligibleBody (f : String → String) (s : Span) : String :=
  if s.isEligible then f s.body else s.body

/-- Bodies change where they are eligible by a change of every body. -/
theorem mapEligible_eq (f : String → String) (s : Span) :
    mapEligible f s = mapBodies (eligibleBody f) s := rfl

mutual

/-- Two changes of eligible bodies, one after the other, are one change. -/
theorem mapBodies_mapEligible (f g : String → String) (s : Span) :
    mapBodies (eligibleBody g) (mapBodies (eligibleBody f) s) =
      mapBodies (eligibleBody (g ∘ f)) s := by
  cases s with
  | mk kind body processable children =>
      simp only [mapBodies, mapBodiesAll_mapEligible f g children]
      congr 1
      by_cases h : (kind == SpanKind.code && processable) = true
      · simp [eligibleBody, isEligible, h]
      · simp [eligibleBody, isEligible, h]

/-- Two changes of the eligible bodies of a list, one after the other, are one change. -/
theorem mapBodiesAll_mapEligible (f g : String → String) (ss : List Span) :
    mapBodiesAll (eligibleBody g) (mapBodiesAll (eligibleBody f) ss) =
      mapBodiesAll (eligibleBody (g ∘ f)) ss := by
  cases ss with
  | nil => rfl
  | cons s rest =>
      simp only [mapBodiesAll, mapBodies_mapEligible f g s, mapBodiesAll_mapEligible f g rest]

end

/-- One change of the eligible bodies after another is one change: no body makes a span eligible. -/
theorem mapEligible_mapEligible (f g : String → String) (s : Span) :
    mapEligible g (mapEligible f s) = mapEligible (g ∘ f) s :=
  mapBodies_mapEligible f g s

/-- Two changes agree on a tree exactly if they agree on its eligible bodies. -/
theorem mapEligible_eq_iff (f g : String → String) (s : Span) :
    mapEligible f s = mapEligible g s ↔
      ∀ t ∈ s.toList, t.isEligible = true → f t.body = g t.body := by
  rw [mapEligible_eq, mapEligible_eq, mapBodies_eq_iff]
  refine forall_congr' fun t => imp_congr_right fun _ => ?_
  simp only [eligibleBody]
  split
  · next h => simp [h]
  · next h => simp [h]

end Pinpoint.Span
