import Pinpoint.Proofs.SpanPositions
import Pinpoint.Span.Walk

/-!
# Positions in source order

`Span.positions` lists the positions of a tree. `sourceOrder_iff` says that it is the one list that
goes through them in source order: each of them once, a span before those inside it, children from
the first to the last, and what is inside a span all in a row. `map_at_positions` says that the
spans at these positions are those of `Span.toList`.
-/

namespace Pinpoint.Span

mutual

/-- The positions of a tree, each before those inside it. -/
def positions : Span → List (List Nat)
  | ⟨_, _, _, children⟩ => [] :: positionsFrom 0 children

/-- The positions inside a row of children that starts with child `i`. -/
def positionsFrom (i : Nat) : List Span → List (List Nat)
  | [] => []
  | s :: rest => (positions s).map (i :: ·) ++ positionsFrom (i + 1) rest

end

/-- A list goes through the positions of a tree in source order. It has each of them, ascending by
the first index that differs, so that a position comes once, before those inside it, and what is
inside a child before what is inside a later one; those inside one position stand in a row. -/
structure SourceOrder (s : Span) (order : List (List Nat)) : Prop where
  mem_iff : ∀ position, position ∈ order ↔ (s.at? position).isSome
  ascending : order.Pairwise (List.Lex (· < ·))
  contiguous : ∀ position ∈ order, order.filter position.isPrefixOf <:+: order

/-! ## Members and their order -/

/-- The first position is that of the span itself, and those of its children follow. -/
theorem positions_eq (s : Span) : s.positions = [] :: positionsFrom 0 s.children := by
  cases s
  rfl

/-- A position inside a child is found in the child. -/
theorem at_cons {s child : Span} {i : Nat} (h : s.children[i]? = some child)
    (position : List Nat) : s.at? (i :: position) = child.at? position := by
  rw [at?, h, Option.bind_some]

/-- A position inside another is found from there. -/
theorem at_append (s : Span) (position inner : List Nat) :
    s.at? (position ++ inner) = (s.at? position).bind fun t => t.at? inner := by
  induction position generalizing s with
  | nil => rfl
  | cons i position ih =>
      rw [List.cons_append, at?, at?]
      cases s.children[i]? with
      | none => rfl
      | some child => exact ih child

/-- The positions of some children are those inside each of them, behind its number. -/
theorem mem_positionsFrom {i : Nat} {ss : List Span} {position : List Nat} :
    position ∈ positionsFrom i ss ↔
      ∃ j inner t, position = (i + j) :: inner ∧ ss[j]? = some t ∧ inner ∈ t.positions := by
  induction ss generalizing i with
  | nil => simp [positionsFrom]
  | cons s rest ih =>
      rw [positionsFrom, List.mem_append, List.mem_map, ih]
      constructor
      · intro h
        obtain ⟨inner, hinner, rfl⟩ | ⟨j, inner, t, rfl, hj, hinner⟩ := h
        · exact ⟨0, inner, s, rfl, rfl, hinner⟩
        · have hindex : i + 1 + j = i + (j + 1) := by omega
          exact ⟨j + 1, inner, t, by rw [hindex], hj, hinner⟩
      · intro h
        obtain ⟨j, inner, t, rfl, hj, hinner⟩ := h
        cases j with
        | zero =>
            obtain rfl : s = t := Option.some.inj hj
            exact .inl ⟨inner, hinner, rfl⟩
        | succ j =>
            have hindex : i + (j + 1) = i + 1 + j := by omega
            exact .inr ⟨j, inner, t, by rw [hindex], hj, hinner⟩

/-- A position inside a child is one of the child's own. -/
theorem mem_positions_cons {s : Span} {i : Nat} {position : List Nat} :
    i :: position ∈ s.positions ↔
      ∃ child, s.children[i]? = some child ∧ position ∈ child.positions := by
  rw [positions_eq, List.mem_cons, mem_positionsFrom]
  constructor
  · intro h
    obtain hnil | ⟨j, inner, child, heq, hchild, hinner⟩ := h
    · cases hnil
    · obtain ⟨rfl, rfl⟩ : i = j ∧ position = inner := by simpa using heq
      exact ⟨child, hchild, hinner⟩
  · intro h
    obtain ⟨child, hchild, hposition⟩ := h
    exact .inr ⟨i, position, child, by rw [Nat.zero_add], hchild, hposition⟩

/-- The list has exactly the positions at which the tree has a span. -/
theorem mem_positions_iff {s : Span} {position : List Nat} :
    position ∈ s.positions ↔ (s.at? position).isSome := by
  induction position generalizing s with
  | nil => simp [positions_eq, at?]
  | cons i position ih =>
      rw [mem_positions_cons, at?]
      cases s.children[i]? with
      | none => simp
      | some child =>
          rw [Option.bind_some, ← ih]
          simp

mutual

/-- The positions of a tree ascend. -/
theorem ascending_positions (s : Span) : s.positions.Pairwise (List.Lex (· < ·)) := by
  cases s with
  | mk kind body processable children =>
      rw [positions, List.pairwise_cons]
      refine ⟨fun position hposition => ?_, ascending_positionsFrom 0 children⟩
      obtain ⟨j, inner, t, rfl, -, -⟩ := mem_positionsFrom.1 hposition
      exact .nil

/-- The positions of some children ascend. -/
theorem ascending_positionsFrom (i : Nat) (ss : List Span) :
    (positionsFrom i ss).Pairwise (List.Lex (· < ·)) := by
  cases ss with
  | nil => exact .nil
  | cons s rest =>
      rw [positionsFrom, List.pairwise_append, List.pairwise_map]
      refine ⟨(ascending_positions s).imp .cons, ascending_positionsFrom (i + 1) rest, ?_⟩
      intro first hfirst later hlater
      obtain ⟨inner, -, rfl⟩ := List.mem_map.1 hfirst
      obtain ⟨j, other, t, rfl, -, -⟩ := mem_positionsFrom.1 hlater
      exact .rel (by omega)

end

/-- The positions inside one of some children stand together. -/
theorem positionsFrom_infix {ss : List Span} {j : Nat} {t : Span} (h : ss[j]? = some t) (i : Nat) :
    t.positions.map ((i + j) :: ·) <:+: positionsFrom i ss := by
  induction ss generalizing i j with
  | nil => simp at h
  | cons s rest ih =>
      rw [positionsFrom]
      cases j with
      | zero =>
          obtain rfl : s = t := Option.some.inj h
          exact (List.prefix_append _ _).isInfix
      | succ j =>
          have hindex : i + (j + 1) = i + 1 + j := by omega
          rw [hindex]
          exact (ih h (i + 1)).trans (List.suffix_append _ _).isInfix

/-- What is inside the span at a position stands in a row. -/
theorem positions_infix {s t : Span} {position : List Nat} (h : s.at? position = some t) :
    t.positions.map (position ++ ·) <:+: s.positions := by
  induction position generalizing s with
  | nil =>
      obtain rfl : s = t := Option.some.inj h
      simp
  | cons i position ih =>
      obtain ⟨child, hchild, hinner⟩ := Option.bind_eq_some_iff.1 h
      have hrow := (ih hinner).map (i :: ·)
      rw [List.map_map] at hrow
      have hchildren := positionsFrom_infix hchild 0
      rw [Nat.zero_add] at hchildren
      rw [positions_eq s]
      exact (hrow.trans hchildren).trans (List.suffix_cons _ _).isInfix

/-- Ascending lists of positions with the same members are the same. -/
theorem eq_of_ascending {order other : List (List Nat)} (horder : order.Pairwise (List.Lex (· < ·)))
    (hother : other.Pairwise (List.Lex (· < ·)))
    (hmem : ∀ position, position ∈ order ↔ position ∈ other) : order = other := by
  have hnodup {l : List (List Nat)} (hl : l.Pairwise (List.Lex (· < ·))) : l.Nodup := by
    refine hl.imp ?_
    intro first later hlex heq
    subst heq
    exact List.lex_irrefl Nat.lt_irrefl first hlex
  refine List.Perm.eq_of_pairwise ?_ horder hother ?_
  · intro first later _ _ hlex hlex'
    exact absurd hlex' (List.lex_asymm Nat.lt_asymm hlex)
  · exact (List.perm_ext_iff_of_nodup (hnodup horder) (hnodup hother)).2 hmem

/-- The positions inside a position stand together. -/
theorem contiguous_positions {s : Span} {position : List Nat} (h : position ∈ s.positions) :
    s.positions.filter position.isPrefixOf <:+: s.positions := by
  obtain ⟨t, ht⟩ := Option.isSome_iff_exists.1 (mem_positions_iff.1 h)
  have hrow := positions_infix ht
  -- The row of the span and the positions that lie inside its own ascend and have the same members.
  have hinside : s.positions.filter position.isPrefixOf = t.positions.map (position ++ ·) := by
    refine eq_of_ascending ((ascending_positions s).filter _)
      ((ascending_positions s).sublist hrow.sublist) ?_
    intro other
    rw [List.mem_filter]
    constructor
    · intro h
      obtain ⟨hother, hprefix⟩ := h
      obtain ⟨inner, rfl⟩ := List.isPrefixOf_iff_prefix.1 hprefix
      rw [mem_positions_iff, at_append, ht] at hother
      exact List.mem_map_of_mem (mem_positions_iff.2 hother)
    · intro hother
      refine ⟨hrow.subset hother, ?_⟩
      obtain ⟨inner, -, rfl⟩ := List.mem_map.1 hother
      exact List.isPrefixOf_iff_prefix.2 (List.prefix_append position inner)
  rw [hinside]
  exact hrow

/-- The positions of a tree are in source order. -/
theorem sourceOrder_positions (s : Span) : SourceOrder s s.positions where
  mem_iff _ := mem_positions_iff
  ascending := ascending_positions s
  contiguous _ := contiguous_positions

/-- There is one list in source order. -/
theorem sourceOrder_iff {s : Span} {order : List (List Nat)} :
    SourceOrder s order ↔ order = s.positions := by
  constructor
  · intro h
    refine eq_of_ascending h.ascending (ascending_positions s) ?_
    intro position
    rw [h.mem_iff, mem_positions_iff]
  · intro h
    rw [h]
    exact sourceOrder_positions s

/-! ## Sizes and spans -/

mutual

/-- A tree has as many positions as spans. -/
theorem length_positions (s : Span) : s.positions.length = s.size := by
  cases s with
  | mk kind body processable children =>
      rw [positions, size, List.length_cons, length_positionsFrom 0 children, Nat.add_comm]

/-- Some children have as many positions as spans. -/
theorem length_positionsFrom (i : Nat) (ss : List Span) :
    (positionsFrom i ss).length = sizeAll ss := by
  cases ss with
  | nil => rfl
  | cons s rest =>
      rw [positionsFrom, sizeAll, List.length_append, List.length_map, length_positions s,
        length_positionsFrom (i + 1) rest]

end

/-- Positions do not depend on the bodies. -/
theorem positions_mapBodies (f : Span → String) (s : Span) :
    (mapBodies f s).positions = s.positions := by
  refine eq_of_ascending (ascending_positions _) (ascending_positions s) ?_
  intro position
  rw [mem_positions_iff, mem_positions_iff, at_mapBodies, Option.isSome_map]

/-- Trees of one skeleton have the same positions. -/
theorem positions_eq_of_skeleton_eq {s t : Span} (h : s.skeleton = t.skeleton) :
    s.positions = t.positions := by
  rw [← positions_mapBodies (fun _ => "") s, ← positions_mapBodies (fun _ => "") t]
  exact congrArg positions h

mutual

/-- The spans at the positions of a tree are its spans in order. -/
theorem map_at_positions (s : Span) : s.positions.map s.at? = s.toList.map some := by
  cases s with
  | mk kind body processable children =>
      rw [positions, toList_eq, List.map_cons, List.map_cons,
        map_at_positionsFrom ⟨kind, body, processable, children⟩ 0 children rfl]
      rfl

/-- The spans at the positions of the last children are theirs in order. -/
theorem map_at_positionsFrom (s : Span) (i : Nat) (ss : List Span) (h : s.children.drop i = ss) :
    (positionsFrom i ss).map s.at? = (ss.flatMap toList).map some := by
  cases ss with
  | nil => rfl
  | cons t rest =>
      have hchild : s.children[i]? = some t := by
        rw [← List.head?_drop, h, List.head?_cons]
      have hrest : s.children.drop (i + 1) = rest := by
        rw [← List.tail_drop, h, List.tail_cons]
      rw [positionsFrom, List.map_append, List.map_map, List.flatMap_cons, List.map_append,
        map_at_positionsFrom s (i + 1) rest hrest, ← map_at_positions t]
      exact congrArg (· ++ _) (List.map_congr_left fun position _ => at_cons hchild position)

end

/-- A tree lists as many spans as its size says. -/
theorem length_toList (s : Span) : s.toList.length = s.size := by
  have hlength := congrArg List.length (map_at_positions s)
  rw [List.length_map, List.length_map, length_positions] at hlength
  exact hlength.symm

end Pinpoint.Span
