import Pinpoint.Proofs.SourceOrder

/-!
# Walks through a tree

Every walk goes through a tree along its positions in source order: `foldlM_at` says so of walks
that read, `foldlM_actAt` of walks that reword a tree in place. `bodies_mapAccum` gives the bodies
that a walk leaves which writes one into each span. `walks_in_source_order` puts these together with
the size and the text of a tree.
-/

namespace Pinpoint.Span

/-! ## Walks that read -/

mutual

/-- A walk that reads goes through the spans as they are listed. -/
theorem foldl_eq {σ : Type} (f : σ → Span → σ) (state : σ) (s : Span) :
    s.foldl f state = s.toList.foldl f state := by
  cases s with
  | mk kind body processable children =>
      rw [foldl, toList_eq, List.foldl_cons, foldlAll_eq f _ children]

/-- A walk that reads goes through the trees of a list as their spans are listed. -/
theorem foldlAll_eq {σ : Type} (f : σ → Span → σ) (state : σ) (ss : List Span) :
    foldlAll f state ss = (ss.flatMap toList).foldl f state := by
  cases ss with
  | nil => rfl
  | cons s rest =>
      rw [foldlAll, foldl_eq f state s, foldlAll_eq f _ rest, List.flatMap_cons,
        List.foldl_append]

end

/-- A walk that reads calls its step at one position after the other. -/
theorem foldlM_at {σ : Type} (f : σ → Span → σ) (state : σ) (s : Span) :
    s.positions.foldlM (fun state position => (s.at? position).map (f state)) state =
      some (s.foldl f state) := by
  calc s.positions.foldlM (fun state position => (s.at? position).map (f state)) state
      = (s.positions.map s.at?).foldlM (fun state t => t.map (f state)) state :=
        List.foldlM_map.symm
    _ = s.toList.foldlM (fun state t => some (f state t)) state := by
        rw [map_at_positions, List.foldlM_map]
        rfl
    _ = some (s.toList.foldl f state) := List.foldlM_pure
    _ = some (s.foldl f state) := by rw [foldl_eq]

/-- The bodies of a tree as a walk meets them. -/
def readBodies (s : Span) : List String := s.foldl (fun seen t => seen ++ [t.body]) []

/-- The bodies that a walk meets are those of the tree, in source order. -/
theorem readBodies_eq (s : Span) : s.readBodies = s.bodies := by
  rw [readBodies, foldl_eq, List.foldl_append_eq_append, List.nil_append, ← List.flatMap_def,
    ← List.map_eq_flatMap, bodies]

mutual

/-- A tree is rendered by a walk that reads. -/
theorem renderOnto_eq (done : String) (s : Span) :
    renderOnto done s = s.foldl (fun text t => text ++ t.body) done := by
  cases s with
  | mk kind body processable children => rw [renderOnto, foldl, renderAll_eq _ children]

/-- A list of trees is rendered by a walk that reads. -/
theorem renderAll_eq (done : String) (ss : List Span) :
    renderAll done ss = foldlAll (fun text t => text ++ t.body) done ss := by
  cases ss with
  | nil => rfl
  | cons s rest => rw [renderAll, foldlAll, renderOnto_eq done s, renderAll_eq _ rest]

end

/-- The text of a tree is the bodies that a walk meets, one behind the other. -/
theorem render_eq (s : Span) : s.render = String.join s.readBodies := by
  rw [render, renderOnto_eq, readBodies_eq, foldl_eq, bodies, String.join, List.foldl_map]

/-! ## Walks that reword -/

/-- Puts a span in the place of the one at a position. -/
def replaceAt : Span → List Nat → Span → Span
  | _, [], t => t
  | s, i :: position, t =>
    { s with children := s.children.modify i fun child => child.replaceAt position t }

/-- Puts a span in the place of a child. -/
def withChild (s : Span) (i : Nat) (child : Span) : Span :=
  { s with children := s.children.set i child }

/-- To put a span into a child is to put the child with the span in its own place. -/
theorem replaceAt_cons {s child : Span} {i : Nat} (h : s.children[i]? = some child)
    (position : List Nat) (t : Span) :
    s.replaceAt (i :: position) t = s.withChild i (child.replaceAt position t) := by
  rw [replaceAt, withChild, List.modify_eq_set, h, Option.getD_some]

/-- A child that was put in a place is found there. -/
theorem children_withChild {s child : Span} {i : Nat} (h : s.children[i]? = some child)
    (other : Span) : (s.withChild i other).children[i]? = some other := by
  obtain ⟨hlt, -⟩ := List.getElem?_eq_some_iff.1 h
  exact List.getElem?_set_self hlt

/-- A child put in its own place changes nothing. -/
theorem withChild_self {s child : Span} {i : Nat} (h : s.children[i]? = some child) :
    s.withChild i child = s := by
  obtain ⟨hlt, rfl⟩ := List.getElem?_eq_some_iff.1 h
  cases s
  exact congrArg (Span.mk _ _ _) (List.set_getElem_self hlt)

/-- Of two children put in one place, the later one stays. -/
theorem withChild_withChild (s : Span) (i : Nat) (child other : Span) :
    (s.withChild i child).withChild i other = s.withChild i other := by
  rw [withChild, withChild, withChild, List.set_set]

/-- A child of the same skeleton keeps the skeleton of the span that it is put in. -/
theorem skeleton_withChild {s child other : Span} {i : Nat} (h : s.children[i]? = some child)
    (hother : other.skeleton = child.skeleton) : (s.withChild i other).skeleton = s.skeleton := by
  cases s with
  | mk kind body processable children =>
      have hsame : (children.map skeleton).set i other.skeleton = children.map skeleton := by
        obtain ⟨hlt, rfl⟩ := List.getElem?_eq_some_iff.1 h
        rw [hother, ← List.map_set, List.set_getElem_self]
      show mapBodies _ _ = mapBodies _ _
      rw [withChild, mapBodies, mapBodies, mapBodiesAll_eq_map, mapBodiesAll_eq_map, List.map_set]
      exact congrArg (Span.mk _ _ _) hsame

/-- A span of the same skeleton keeps the skeleton of the tree that it is put in. -/
theorem skeleton_replaceAt {s t other : Span} {position : List Nat}
    (h : s.at? position = some t) (hother : other.skeleton = t.skeleton) :
    (s.replaceAt position other).skeleton = s.skeleton := by
  induction position generalizing s with
  | nil =>
      obtain rfl : s = t := Option.some.inj h
      exact hother
  | cons i position ih =>
      obtain ⟨child, hchild, hinner⟩ := Option.bind_eq_some_iff.1 h
      rw [replaceAt_cons hchild]
      exact skeleton_withChild hchild (ih hinner)

end Pinpoint.Span

namespace Pinpoint.Rewording

open Pinpoint.Span

variable {σ : Type} (r : Rewording σ)

/-- Makes the step at a position of the tree as it stands; there is none if it has no such
position. -/
def actAt? (current : σ × Span) (position : List Nat) : Option (σ × Span) :=
  (current.2.at? position).map fun t =>
    let reworded := r.act current.1 t
    (reworded.1, current.2.replaceAt position reworded.2)

/-- Steps inside a child are steps in the child by itself. -/
theorem foldlM_actAt_child {s child : Span} {i : Nat} (h : s.children[i]? = some child) (state : σ)
    (order : List (List Nat)) :
    (order.map (i :: ·)).foldlM r.actAt? (state, s) =
      (order.foldlM r.actAt? (state, child)).map fun done => (done.1, s.withChild i done.2) := by
  induction order generalizing s child state with
  | nil =>
      show some (state, s) = some (state, s.withChild i child)
      rw [withChild_self h]
  | cons position order ih =>
      rw [List.map_cons, List.foldlM_cons, List.foldlM_cons, actAt?, actAt?, at_cons h]
      cases child.at? position with
      | none => rfl
      | some t =>
          have hnext := ih (children_withChild h (child.replaceAt position (r.act state t).2))
            (r.act state t).1
          simp only [withChild_withChild] at hnext
          rw [← replaceAt_cons h] at hnext
          exact hnext

/-- A step in place keeps the skeleton. -/
theorem skeleton_actAt {current next : σ × Span} {position : List Nat}
    (h : r.actAt? current position = some next) : next.2.skeleton = current.2.skeleton := by
  obtain ⟨t, ht, rfl⟩ := Option.map_eq_some_iff.1 h
  exact skeleton_replaceAt ht (r.skeleton_act current.1 t)

/-- Steps in place, as many as there may be, keep the skeleton. -/
theorem skeleton_foldlM_actAt {current last : σ × Span} {order : List (List Nat)}
    (h : order.foldlM r.actAt? current = some last) : last.2.skeleton = current.2.skeleton := by
  induction order generalizing current with
  | nil =>
      cases h
      rfl
  | cons position order ih =>
      rw [List.foldlM_cons] at h
      obtain ⟨next, hnext, hlast⟩ := Option.bind_eq_some_iff.1 h
      rw [ih hlast, r.skeleton_actAt hnext]

/-- Steps inside the last children of a span are a walk through these, whatever was made of the
children before. -/
def WalksRest (state : σ) (rest : List Span) : Prop :=
  ∀ (s : Span) (done : List Span), s.children = done ++ rest →
    (positionsFrom done.length rest).foldlM r.actAt? (state, s) =
      some ((walkAll r state rest).1, { s with children := done ++ (walkAll r state rest).2 })

/-- A walk through no children makes no step. -/
theorem walksRest_nil (state : σ) : r.WalksRest state [] := by
  intro s done h
  rw [walkAll, ← h]
  cases s
  rfl

/-- A walk through the first child and then the others is a walk through them all. -/
theorem walksRest_cons {state : σ} {t : Span} {rest : List Span}
    (hfirst : t.positions.foldlM r.actAt? (state, t) = some (t.walk r state))
    (hrest : r.WalksRest (t.walk r state).1 rest) : r.WalksRest state (t :: rest) := by
  intro s done h
  have hchild : s.children[done.length]? = some t := by simp [h]
  have hchildren : (s.withChild done.length (t.walk r state).2).children =
      (done ++ [(t.walk r state).2]) ++ rest := by
    simp [withChild, h]
  have hlater := hrest _ _ hchildren
  rw [List.length_append, List.length_singleton, List.append_assoc] at hlater
  rw [positionsFrom, List.foldlM_append, r.foldlM_actAt_child hchild, hfirst, walkAll]
  exact hlater

/-- A walk that rewords makes its step at one position after the other, in place. -/
theorem foldlM_actAt (state : σ) (s : Span) :
    s.positions.foldlM r.actAt? (state, s) = some (s.walk r state) := by
  -- The induction is that of the walk; for a row of children it carries the span that they are in.
  refine walk.induct r
    (fun state s => s.positions.foldlM r.actAt? (state, s) = some (s.walk r state)) r.WalksRest
    ?_ r.walksRest_nil (fun state t rest => r.walksRest_cons) state s
  intro state s reworded hinside
  -- The first step, at the tree itself, may reach all its bodies but leaves the positions.
  have hpositions := positions_eq_of_skeleton_eq (r.skeleton_act state s)
  rw [← hpositions, positions_eq, List.foldlM_cons, walk]
  exact hinside reworded.2 [] rfl

/-- A walk that rewords keeps the skeleton. -/
theorem skeleton_walk (state : σ) (s : Span) : (s.walk r state).2.skeleton = s.skeleton :=
  r.skeleton_foldlM_actAt (r.foldlM_actAt state s)

end Pinpoint.Rewording

namespace Pinpoint.Span

/-! ## Walks that write a body each -/

variable {σ : Type} (f : σ → Span → σ × String)

/-- A span gets its body before the spans inside it get theirs. -/
theorem mapAccum_mk (state : σ) (s : Span) :
    s.mapAccum f state =
      ((mapAccumAll f (f state s).1 s.children).1,
        { s with
          body := (f state s).2
          children := (mapAccumAll f (f state s).1 s.children).2 }) := by
  cases s
  rfl

/-- A list of trees gets its bodies tree by tree. -/
theorem mapAccumAll_cons (state : σ) (s : Span) (rest : List Span) :
    mapAccumAll f state (s :: rest) =
      ((mapAccumAll f (s.mapAccum f state).1 rest).1,
        (s.mapAccum f state).2 :: (mapAccumAll f (s.mapAccum f state).1 rest).2) := rfl

mutual

/-- A walk that gives each span a body is the walk that rewords no more than that. -/
theorem mapAccum_eq_walk (state : σ) (s : Span) :
    s.mapAccum f state = s.walk (.ofBody f) state := by
  cases s with
  | mk kind body processable children =>
      rw [mapAccum_mk, walk, mapAccumAll_eq_walkAll _ children]
      rfl

/-- A walk that gives each span of a list a body is the walk that rewords no more than that. -/
theorem mapAccumAll_eq_walkAll (state : σ) (ss : List Span) :
    mapAccumAll f state ss = walkAll (.ofBody f) state ss := by
  cases ss with
  | nil => rw [mapAccumAll, walkAll]
  | cons s rest =>
      rw [mapAccumAll_cons, walkAll, mapAccum_eq_walk state s, mapAccumAll_eq_walkAll _ rest]

end

mutual

/-- A walk that gives each span a body meets the spans that a walk which reads meets. -/
theorem fst_mapAccum (state : σ) (s : Span) :
    (s.mapAccum f state).1 = s.foldl (fun state t => (f state t).1) state := by
  cases s with
  | mk kind body processable children =>
      rw [mapAccum, foldl, ← fst_mapAccumAll _ children]

/-- A walk that gives each span of a list a body meets the spans that a walk which reads meets. -/
theorem fst_mapAccumAll (state : σ) (ss : List Span) :
    (mapAccumAll f state ss).1 = foldlAll (fun state t => (f state t).1) state ss := by
  cases ss with
  | nil => rfl
  | cons s rest =>
      rw [mapAccumAll, foldlAll, ← fst_mapAccum state s, ← fst_mapAccumAll _ rest]

end

/-- The bodies that a step answers for spans met one after the other. -/
def answers (state : σ) : List Span → List String
  | [] => []
  | t :: rest => (f state t).2 :: answers (f state t).1 rest

/-- The answers for spans are told list by list, and the state goes on from one to the next. -/
theorem answers_append (state : σ) (ss ts : List Span) :
    answers f state (ss ++ ts) =
      answers f state ss ++ answers f (ss.foldl (fun state t => (f state t).1) state) ts := by
  induction ss generalizing state with
  | nil => rfl
  | cons s rest ih => rw [List.cons_append, answers, answers, ih, List.foldl_cons, List.cons_append]

mutual

/-- The bodies after a walk are its answers in source order. -/
theorem bodies_mapAccum (state : σ) (s : Span) :
    (s.mapAccum f state).2.bodies = answers f state s.toList := by
  cases s with
  | mk kind body processable children =>
      rw [bodies, toList_eq, toList_eq, answers, ← bodies_mapAccumAll _ children, mapAccum]
      rfl

/-- The bodies of a list of trees after a walk are its answers in source order. -/
theorem bodies_mapAccumAll (state : σ) (ss : List Span) :
    ((mapAccumAll f state ss).2.flatMap toList).map body =
      answers f state (ss.flatMap toList) := by
  cases ss with
  | nil => rfl
  | cons s rest =>
      rw [List.flatMap_cons, answers_append, ← foldl_eq, ← fst_mapAccum, ← bodies_mapAccum state s,
        ← bodies_mapAccumAll _ rest, mapAccumAll]
      simp [bodies]

end

/-- Gives the span that comes as number `i` the text number `i`, if there is one. -/
def writeNext (texts : List String) (i : Nat) (s : Span) : Nat × String :=
  (i + 1, texts.getD i s.body)

/-- A step that writes the next text answers the texts that are left. -/
theorem answers_writeNext {texts : List String} {i : Nat} {ss : List Span}
    (h : i + ss.length = texts.length) : answers (writeNext texts) i ss = texts.drop i := by
  induction ss generalizing i with
  | nil =>
      have hend : texts.length ≤ i := Nat.le_of_eq h.symm
      rw [List.drop_of_length_le hend, answers]
  | cons s rest ih =>
      have hlt : i < texts.length := by
        rw [← h, List.length_cons]
        omega
      have hrest : i + 1 + rest.length = texts.length := by
        rw [← h, List.length_cons]
        omega
      have htext : (writeNext texts i s).2 = texts[i] := by
        rw [writeNext, List.getD_eq_getElem?_getD, List.getElem?_eq_getElem hlt, Option.getD_some]
      rw [answers, htext, List.drop_eq_getElem_cons hlt]
      exact congrArg _ (ih hrest)

/-- A step that writes the next text counts the spans. -/
theorem foldl_writeNext (texts : List String) (i : Nat) (ss : List Span) :
    ss.foldl (fun i t => (writeNext texts i t).1) i = i + ss.length := by
  induction ss generalizing i with
  | nil => rfl
  | cons s rest ih =>
      rw [List.foldl_cons, ih, writeNext, List.length_cons]
      omega

/-- Texts that a walk writes into the spans, one after the other, are read back as they were. -/
theorem walk_writeNext {texts : List String} {s : Span} (h : texts.length = s.size) :
    (s.walk (.ofBody (writeNext texts)) 0).1 = s.size ∧
      (s.walk (.ofBody (writeNext texts)) 0).2.readBodies = texts := by
  rw [← mapAccum_eq_walk]
  constructor
  · rw [fst_mapAccum, foldl_eq, foldl_writeNext, length_toList, Nat.zero_add]
  · have hcount : 0 + s.toList.length = texts.length := by
      rw [length_toList, h, Nat.zero_add]
    rw [readBodies_eq, bodies_mapAccum, answers_writeNext hcount, List.drop_zero]

/-! ## Main statement -/

/-- All walks through a tree go in source order and make one step at each of its spans, as many as
its size says. So do walks that read, with any state, and walks that reword, which find each span as
the steps before left it and keep the skeleton. The text of the tree is its bodies as they are read.
Where each step writes the body of its own span, the spans that it finds are those that are read;
and if it writes one text of a list after the other, the list is what is read afterwards. -/
theorem walks_in_source_order (s : Span) :
    (∀ order, SourceOrder s order ↔ order = s.positions) ∧
      s.positions.length = s.size ∧
      (∀ (σ : Type) (f : σ → Span → σ) (state : σ),
        s.positions.foldlM (fun state position => (s.at? position).map (f state)) state =
          some (s.foldl f state)) ∧
      (∀ (σ : Type) (r : Rewording σ) (state : σ),
        s.positions.foldlM r.actAt? (state, s) = some (s.walk r state) ∧
          (s.walk r state).2.skeleton = s.skeleton) ∧
      s.render = String.join s.readBodies ∧
      (∀ (σ : Type) (f : σ → Span → σ × String) (state : σ),
        s.walk (.ofBody f) state = s.mapAccum f state ∧
          (s.walk (.ofBody f) state).1 = s.foldl (fun state t => (f state t).1) state) ∧
      ∀ texts : List String, texts.length = s.size →
        let written := s.walk (.ofBody (writeNext texts)) 0
        written.1 = s.size ∧ written.2.readBodies = texts ∧ written.2.skeleton = s.skeleton := by
  refine ⟨fun order => sourceOrder_iff, length_positions s, ?_, ?_, render_eq s, ?_, ?_⟩
  · intro σ f state
    exact foldlM_at f state s
  · intro σ r state
    exact ⟨r.foldlM_actAt state s, r.skeleton_walk state s⟩
  · intro σ f state
    rw [← mapAccum_eq_walk]
    exact ⟨rfl, fst_mapAccum f state s⟩
  · intro texts h written
    obtain ⟨hcount, hread⟩ := walk_writeNext h
    exact ⟨hcount, hread, Rewording.skeleton_walk _ 0 s⟩

/-- Five texts for five spans, one of them inside the third. -/
theorem walks_in_source_order_five :
    let s : Span := ⟨.file, "", true, [⟨.opening, "a", true, []⟩,
      ⟨.code, "b", true, [⟨.string, "c", false, []⟩]⟩, ⟨.comment, "d", true, []⟩]⟩
    let texts := ["1", "2", "3", "4", "5"]
    s.positions = [[], [0], [1], [1, 0], [2]] ∧ texts.length = s.size ∧ s.render = "abcd" ∧
      (s.walk (.ofBody (writeNext texts)) 0).2.readBodies = texts ∧
      s.mapAccum (writeNext texts) 0 = (5, ⟨.file, "1", true, [⟨.opening, "2", true, []⟩,
        ⟨.code, "3", true, [⟨.string, "4", false, []⟩]⟩, ⟨.comment, "5", true, []⟩]⟩) := by
  intro s texts
  have hcount : texts.length = s.size := rfl
  obtain ⟨-, -, -, -, hrender, -, hwrite⟩ := walks_in_source_order s
  obtain ⟨-, hread, -⟩ := hwrite texts hcount
  exact ⟨rfl, hcount, by rw [hrender]; decide, hread, rfl⟩

end Pinpoint.Span
