/-!
# Things under names

A list of things under names keeps the order in which the names came in. `Named.put` puts a thing
under a name: in the place of the former one, or behind all others.
-/

namespace Pinpoint.Named

variable {α : Type}

/-- Puts a thing under a name. A known name keeps its place. -/
def put (name : String) (a : α) : List (String × α) → List (String × α)
  | [] => [(name, a)]
  | entry :: rest => if entry.1 = name then (name, a) :: rest else entry :: put name a rest

/-- Puts a thing under a name, and gives the one that it takes the place of. -/
def exchange (name : String) (a : α) : List (String × α) → Option α × List (String × α)
  | [] => (none, [(name, a)])
  | entry :: rest =>
    if entry.1 = name then (some entry.2, (name, a) :: rest)
    else
      let (former, rest) := exchange name a rest
      (former, entry :: rest)

/-- Takes a name out; the others keep their order. -/
def drop (name : String) : List (String × α) → List (String × α)
  | [] => []
  | entry :: rest => if entry.1 = name then rest else entry :: drop name rest

/-- The thing under a name. -/
def find? (name : String) : List (String × α) → Option α
  | [] => none
  | entry :: rest => if entry.1 = name then some entry.2 else find? name rest

/-- The names in order. -/
def names (entries : List (String × α)) : List String := entries.map Prod.fst

/-- The first name is that of the first entry. -/
theorem names_cons (entry : String × α) (rest : List (String × α)) :
    names (entry :: rest) = entry.1 :: names rest := rfl

/-- A new name comes last, a known one stays where it was. -/
theorem names_put (name : String) (a : α) (entries : List (String × α)) :
    names (put name a entries) =
      if name ∈ names entries then names entries else names entries ++ [name] := by
  induction entries with
  | nil => simp [put, names]
  | cons entry rest ih =>
      simp only [names] at ih
      by_cases h : entry.1 = name
      · simp [put, names, h]
      · have h' : ¬ name = entry.1 := fun e => h e.symm
        by_cases hm : name ∈ rest.map Prod.fst
        · simp [put, names, h, h', ih, hm]
        · simp [put, names, h, h', ih, hm]

/-- What is found after a thing was put under a name. -/
theorem find?_put (name other : String) (a : α) (entries : List (String × α)) :
    find? other (put name a entries) = if name = other then some a else find? other entries := by
  induction entries with
  | nil => simp [put, find?]
  | cons entry rest ih =>
      by_cases h : entry.1 = name
      · by_cases h' : name = other
        · simp [put, find?, h, h']
        · simp [put, find?, h, h']
      · by_cases h' : entry.1 = other
        · have : ¬ name = other := fun e => h (h'.trans e.symm)
          rw [put, if_neg h]
          simp [find?, h', this]
        · simp [put, find?, h, h', ih]

/-- An exchange gives what was found under the name. -/
theorem exchange_eq (name : String) (a : α) (entries : List (String × α)) :
    exchange name a entries = (find? name entries, put name a entries) := by
  induction entries with
  | nil => rfl
  | cons entry rest ih =>
      by_cases h : entry.1 = name
      · simp [exchange, find?, put, h]
      · simp [exchange, find?, put, h, ih]

/-- Nothing comes in but the thing that is put under the name. -/
theorem mem_put {name : String} {a : α} {entries : List (String × α)} {entry : String × α}
    (h : entry ∈ put name a entries) : entry = (name, a) ∨ entry ∈ entries := by
  fun_induction put name a entries with
  | case1 => exact .inl (List.mem_singleton.1 h)
  | case2 first rest heq =>
      rcases List.mem_cons.1 h with h | h
      · exact .inl h
      · exact .inr (List.mem_cons_of_mem _ h)
  | case3 first rest hne ih =>
      rcases List.mem_cons.1 h with rfl | h
      · exact .inr List.mem_cons_self
      · exact (ih h).imp id (List.mem_cons_of_mem _)

/-- To put a thing under a name keeps names different. -/
theorem nodup_put {entries : List (String × α)} (h : (names entries).Nodup) (name : String)
    (a : α) : (names (put name a entries)).Nodup := by
  rw [names_put]
  split
  · exact h
  · next hnew =>
      rw [List.nodup_append]
      refine ⟨h, List.pairwise_singleton _ name, fun other hother last hlast => ?_⟩
      rintro rfl
      exact hnew (List.mem_singleton.1 hlast ▸ hother)

/-- A name with nothing under it yet comes behind all others. -/
theorem put_of_not_mem {name : String} {entries : List (String × α)} (h : name ∉ names entries)
    (a : α) : put name a entries = entries ++ [(name, a)] := by
  induction entries with
  | nil => rfl
  | cons entry rest ih =>
      rw [names_cons, List.mem_cons, not_or] at h
      rw [put, if_neg (Ne.symm h.1), ih h.2, List.cons_append]

/-- Something is found under the names, and under no others. -/
theorem find?_isSome_iff (name : String) (entries : List (String × α)) :
    (find? name entries).isSome ↔ name ∈ names entries := by
  induction entries with
  | nil => simp [find?, names]
  | cons entry rest ih =>
      rw [names_cons, List.mem_cons]
      by_cases h : entry.1 = name
      · simp [find?, h]
      · rw [find?, if_neg h, ih]
        exact ⟨.inr, fun hmem => hmem.resolve_left (Ne.symm h)⟩

/-- The names but one, in their order. -/
theorem names_drop (name : String) (entries : List (String × α)) :
    names (drop name entries) = (names entries).erase name := by
  induction entries with
  | nil => rfl
  | cons entry rest ih =>
      rw [names_cons, List.erase_cons]
      by_cases h : entry.1 = name
      · simp [drop, h]
      · simp [drop, names_cons, h, ih]

/-- To take a name out leaves what stands under the others. -/
theorem find?_drop_of_ne {name other : String} (h : name ≠ other) (entries : List (String × α)) :
    find? other (drop name entries) = find? other entries := by
  induction entries with
  | nil => rfl
  | cons entry rest ih =>
      by_cases hname : entry.1 = name
      · have hother : entry.1 ≠ other := fun e => h (hname.symm.trans e)
        rw [drop, if_pos hname, find?, if_neg hother]
      · rw [drop, if_neg hname, find?, find?, ih]

/-- What is found under a name taken out: nothing, as names are different. -/
theorem find?_drop_self {entries : List (String × α)} (h : (names entries).Nodup) (name : String) :
    find? name (drop name entries) = none := by
  have hgone : name ∉ names (drop name entries) := by
    rw [names_drop]
    exact h.not_mem_erase
  rwa [← find?_isSome_iff, Option.not_isSome_iff_eq_none] at hgone

/-- Under different names each thing is found under its own. -/
theorem map_find?_names {entries : List (String × α)} (h : (names entries).Nodup) :
    (names entries).map (find? · entries) = entries.map fun entry => some entry.2 := by
  induction entries with
  | nil => rfl
  | cons entry rest ih =>
      rw [names_cons, List.nodup_cons] at h
      have hrest : ∀ name ∈ names rest, find? name (entry :: rest) = find? name rest := by
        intro name hname
        rw [find?, if_neg]
        rintro rfl
        exact h.1 hname
      rw [names_cons, List.map_cons, List.map_cons, find?, if_pos rfl]
      exact congrArg _ ((List.map_congr_left hrest).trans (ih h.2))

end Pinpoint.Named
