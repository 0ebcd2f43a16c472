import Pinpoint.Path

/-!
# Parents of paths

The parent of a path is found among its steps, but it is cut from the path's own bytes. Both views
agree: `prefix_parent` says that the bytes of a parent begin those of the path, and
`components_parent` that it has the components of the path but for the last one. Both follow from
`parent_cases`, which says what parent a path has. For absolute paths the directory is the parent
(`dirname_of_parent`).
-/

namespace Pinpoint

namespace Path

/-- Whether a piece names something at its position. -/
def names (step : List UInt8 × Nat) : Bool := isStep step.2 step.1

/-- The pieces of a path that name something, with their positions. -/
def steps (p : Path) : List (List UInt8 × Nat) := (pieces p.bytes).zipIdx.filter names

/-- The components of a path are the root, if it is absolute, and one for each step. -/
theorem components_eq (p : Path) :
    p.components = (if p.isAbsolute then [.root] else []) ++
      p.steps.map fun step => .ofStep step.1 := rfl

/-! ## Pieces and their positions -/

/-- Pieces are what a split at the slashes gives. -/
theorem pieces_eq_splitOn (bytes : List UInt8) : pieces bytes = bytes.splitOn slash := by
  induction bytes with
  | nil => rfl
  | cons b rest ih =>
      rw [pieces, List.splitOn_cons_eq_if_modifyHead, ih]
      by_cases h : b = slash
      · simp [h]
      · obtain ⟨piece, more, hmore⟩ := List.exists_cons_of_ne_nil (List.splitOn_ne_nil slash rest)
        simp [h, hmore]

/-- Joining the pieces of a path gives the path back. -/
theorem intercalate_pieces (bytes : List UInt8) : [slash].intercalate (pieces bytes) = bytes := by
  rw [pieces_eq_splitOn, List.intercalate_splitOn]

/-- Joining two rows of pieces joins each, and puts a slash between them. -/
theorem intercalate_append {first more : List (List UInt8)} (hfirst : first ≠ [])
    (hmore : more ≠ []) :
    [slash].intercalate (first ++ more) =
      [slash].intercalate first ++ slash :: [slash].intercalate more := by
  induction first with
  | nil => exact absurd rfl hfirst
  | cons piece first ih =>
      cases first with
      | nil => simp [List.intercalate_cons_of_ne_nil hmore]
      | cons piece' first => simpa using ih (by simp)

/-- A piece holds no slash. -/
theorem slash_not_mem {bytes piece : List UInt8} (h : piece ∈ pieces bytes) : slash ∉ piece := by
  induction bytes generalizing piece with
  | nil =>
      rw [List.mem_singleton.1 h]
      exact List.not_mem_nil
  | cons b rest ih =>
      rw [pieces] at h
      split at h
      · rcases List.mem_cons.1 h with rfl | h
        · exact List.not_mem_nil
        · exact ih h
      · next hb =>
          have hfirst : ∀ {piece : List UInt8}, slash ∉ piece → slash ∉ b :: piece :=
            fun hpiece => List.not_mem_cons_of_ne_of_not_mem (Ne.symm hb) hpiece
          split at h
          · rw [List.mem_singleton.1 h]
            exact hfirst List.not_mem_nil
          · next first more hpieces =>
              rw [hpieces] at ih
              rcases List.mem_cons.1 h with rfl | h
              · exact hfirst (ih List.mem_cons_self)
              · exact ih (List.mem_cons_of_mem first h)

/-- Pieces without slashes are the pieces of what they are joined to. -/
theorem pieces_intercalate {kept : List (List UInt8)} (hne : kept ≠ [])
    (h : ∀ piece ∈ kept, slash ∉ piece) : pieces ([slash].intercalate kept) = kept := by
  rw [pieces_eq_splitOn, List.splitOn_intercalate slash h hne]

/-- The first pieces with their positions are a list with positions of their own. -/
theorem zipIdx_eq_append {items : List (List UInt8)} {first more : List (List UInt8 × Nat)}
    (h : items.zipIdx = first ++ more) :
    (first.map Prod.fst).zipIdx = first ∧
      items = first.map Prod.fst ++ more.map Prod.fst := by
  have hitems : items = first.map Prod.fst ++ more.map Prod.fst := by
    rw [← List.map_append, ← h, List.zipIdx_map_fst]
  rw [hitems, List.zipIdx_append] at h
  exact ⟨List.append_inj_left h (by simp), hitems⟩

/-- What is dropped up to the first step holds no step. -/
theorem filter_dropWhile (items : List (List UInt8 × Nat)) :
    (items.dropWhile fun step => !names step).filter names = items.filter names := by
  induction items with
  | nil => rfl
  | cons step items ih =>
      by_cases h : names step = true
      · rw [List.dropWhile_cons_of_neg (by simp [h])]
      · rw [List.dropWhile_cons_of_pos (by simp [h]), ih, List.filter_cons_of_neg h]

/-- The first piece that was not dropped names something. -/
theorem names_of_dropWhile {items rest : List (List UInt8 × Nat)} {step : List UInt8 × Nat}
    (h : (items.dropWhile fun step => !names step) = step :: rest) : names step = true := by
  have hhead := List.head?_dropWhile_not (fun step => !names step) items
  rw [h] at hhead
  simpa using hhead

/-- A piece that names something is not empty. -/
theorem ne_nil_of_names {step : List UInt8 × Nat} (h : names step = true) : step.1 ≠ [] := by
  intro hnil
  rw [names, hnil] at h
  cases h

/-! ## The steps of a parent -/

/-- From the last step on backwards a path has all its steps. -/
theorem filter_fromLastStep (p : Path) : p.fromLastStep.filter names = p.steps.reverse := by
  show ((pieces p.bytes).zipIdx.reverse.dropWhile fun step => !names step).filter names = _
  rw [filter_dropWhile, List.filter_reverse]
  rfl

section

variable {p : Path} {last : List UInt8 × Nat} {before : List (List UInt8 × Nat)}

/-- The steps of a path are those before the last one, and the last one. -/
theorem steps_of_fromLastStep (h : p.fromLastStep = last :: before) :
    p.steps = ((before.dropWhile fun step => !names step).filter names).reverse ++ [last] := by
  have hfilter := p.filter_fromLastStep
  rw [h, List.filter_cons_of_pos (names_of_dropWhile h), ← filter_dropWhile] at hfilter
  rw [← List.reverse_cons, hfilter, List.reverse_reverse]

/-- What leads up to the last step, without the pieces between, begins the pieces of the path. -/
theorem pieces_of_fromLastStep (h : p.fromLastStep = last :: before) :
    ∃ more, more ≠ [] ∧ (pieces p.bytes).zipIdx =
      (before.dropWhile fun step => !names step).reverse ++ more := by
  obtain ⟨behind, hbehind⟩ :
      p.fromLastStep <:+ (pieces p.bytes).zipIdx.reverse := List.dropWhile_suffix _
  obtain ⟨between, hbetween⟩ :
      (before.dropWhile fun step => !names step) <:+ before := List.dropWhile_suffix _
  refine ⟨(behind ++ last :: between).reverse, by simp, ?_⟩
  rw [← List.reverse_append, List.append_assoc, List.cons_append, hbetween, ← h, hbehind,
    List.reverse_reverse]

end

/-- A path has no step and no parent; or one step, and the parent is the root or nothing; or the
parent is joined from the first pieces of the path, which hold all of its steps but the last. -/
theorem parent_cases (p : Path) :
    (p.steps = [] ∧ p.parent? = none) ∨
    (∃ last, p.steps = [last] ∧ p.parent? = some ⟨if p.isAbsolute then [slash] else []⟩) ∨
    ∃ first more last, first ≠ [] ∧ more ≠ [] ∧ pieces p.bytes = first ++ more ∧
      [slash].intercalate first ≠ [] ∧ p.steps = steps ⟨[slash].intercalate first⟩ ++ [last] ∧
      p.parent? = some ⟨[slash].intercalate first⟩ := by
  unfold parent?
  cases hlast : p.fromLastStep with
  | nil =>
      have hfilter := p.filter_fromLastStep
      rw [hlast, List.filter_nil] at hfilter
      exact .inl ⟨List.reverse_eq_nil_iff.1 hfilter.symm, rfl⟩
  | cons last before =>
      have hsteps := steps_of_fromLastStep hlast
      obtain ⟨more, hmore, hpieces⟩ := pieces_of_fromLastStep hlast
      dsimp only
      -- What is left before the last step begins with a step again, or there is none.
      cases hkept : before.dropWhile fun step => !isStep step.2 step.1 with
      | nil =>
          rw [show (before.dropWhile fun step => !names step) = [] from hkept] at hsteps
          exact .inr (.inl ⟨last, hsteps, rfl⟩)
      | cons step kept =>
          have hnames : names step = true := names_of_dropWhile hkept
          rw [show (before.dropWhile fun step => !names step) = step :: kept from hkept]
            at hsteps hpieces
          obtain ⟨hzip, hitems⟩ := zipIdx_eq_append hpieces
          let first := (step :: kept).reverse.map Prod.fst
          have hne : first ≠ [] := by simp [first]
          have hjoined : pieces ([slash].intercalate first) = first :=
            pieces_intercalate hne fun piece hpiece =>
              slash_not_mem (hitems ▸ List.mem_append_left _ hpiece)
          refine .inr (.inr ⟨first, more.map Prod.fst, last, hne, mt List.map_eq_nil_iff.1 hmore,
            hitems, fun hnil => ?_, ?_, rfl⟩)
          · -- The last piece is a step, so it is not empty.
            have hmem : step.1 ∈ first := by simp [first]
            rw [← hjoined, hnil] at hmem
            exact ne_nil_of_names hnames (List.mem_singleton.1 hmem)
          · rw [hsteps, steps, hjoined, hzip, List.filter_reverse]

/-! ## Parents and directories -/

section

variable {p q : Path}

/-- The root and the empty path have no step. -/
theorem steps_root (absolute : Bool) : steps ⟨if absolute then [slash] else []⟩ = [] := by
  cases absolute <;> decide

/-- A path has the steps of its parent, and one more. -/
theorem steps_parent (h : p.parent? = some q) : ∃ last, p.steps = q.steps ++ [last] := by
  obtain ⟨-, hnone⟩ | ⟨last, hsteps, hparent⟩ | ⟨_, _, last, _, _, _, _, hsteps, hparent⟩ :=
    p.parent_cases
  · cases h.symm.trans hnone
  · cases h.symm.trans hparent
    exact ⟨last, by rw [hsteps, steps_root, List.nil_append]⟩
  · cases h.symm.trans hparent
    exact ⟨last, hsteps⟩

/-- An absolute path begins with a slash. -/
theorem bytes_of_isAbsolute (h : p.isAbsolute = true) : ∃ rest, p.bytes = slash :: rest := by
  unfold isAbsolute at h
  cases hbytes : p.bytes with
  | nil => simp [hbytes] at h
  | cons b rest =>
      rw [hbytes] at h
      exact ⟨rest, congrArg (· :: rest) (by simpa using h)⟩

/-- A parent is nothing, or the slash that begins the path, or what stands before a slash of it. -/
theorem bytes_parent (h : p.parent? = some q) :
    q.bytes = [] ∨ (q.bytes = [slash] ∧ ∃ rest, p.bytes = slash :: rest) ∨
      ∃ rest, p.bytes = q.bytes ++ slash :: rest := by
  obtain ⟨-, hnone⟩ | ⟨_, _, hparent⟩ | ⟨first, more, _, hfirst, hmore, hpieces, _, _, hparent⟩ :=
    p.parent_cases
  · cases h.symm.trans hnone
  · cases h.symm.trans hparent
    cases habsolute : p.isAbsolute with
    | false => exact .inl rfl
    | true => exact .inr (.inl ⟨rfl, bytes_of_isAbsolute habsolute⟩)
  · cases h.symm.trans hparent
    refine .inr (.inr ⟨[slash].intercalate more, ?_⟩)
    rw [← intercalate_append hfirst hmore, ← hpieces, intercalate_pieces]

/-- The bytes of a parent begin those of the path. -/
theorem prefix_parent (h : p.parent? = some q) : q.bytes <+: p.bytes := by
  obtain hnil | ⟨hslash, rest, hbytes⟩ | ⟨rest, hbytes⟩ := bytes_parent h
  · rw [hnil]
    exact List.nil_prefix
  · rw [hslash, hbytes]
    exact List.prefix_append [slash] rest
  · rw [hbytes]
    exact List.prefix_append _ _

/-- The parent of an absolute path is absolute, and that of a relative one relative. -/
theorem isAbsolute_parent (h : p.parent? = some q) : q.isAbsolute = p.isAbsolute := by
  have hbegins := prefix_parent h
  obtain ⟨-, hnone⟩ | ⟨_, _, hparent⟩ | ⟨_, _, _, _, _, _, hne, _, hparent⟩ := p.parent_cases
  · cases h.symm.trans hnone
  · cases h.symm.trans hparent
    cases p.isAbsolute <;> rfl
  · cases h.symm.trans hparent
    -- A parent that is not empty begins with the byte that the path begins with.
    obtain ⟨b, rest, hbytes⟩ := List.exists_cons_of_ne_nil hne
    obtain ⟨behind, hpath⟩ := hbegins
    dsimp only at hpath
    rw [hbytes, List.cons_append] at hpath
    unfold isAbsolute
    rw [← hpath, hbytes]
    rfl

/-- The last step of a path adds a component to those of the parent. -/
theorem components_of_parent (h : p.parent? = some q) :
    ∃ piece, p.components = q.components ++ [.ofStep piece] := by
  obtain ⟨last, hsteps⟩ := steps_parent h
  refine ⟨last.1, ?_⟩
  rw [components_eq, components_eq, isAbsolute_parent h, hsteps, List.map_append,
    ← List.append_assoc]
  rfl

/-- A parent has the components of the path but for the last one. -/
theorem components_parent (h : p.parent? = some q) : q.components = p.components.dropLast := by
  obtain ⟨piece, hcomponents⟩ := components_of_parent h
  rw [hcomponents, List.dropLast_concat]

/-- The directory of an absolute path is its parent, if it has one. -/
theorem dirname_of_parent (habsolute : p.isAbsolute = true) (h : p.parent? = some q) :
    p.dirname = q := by
  obtain ⟨rest, hbytes⟩ := bytes_of_isAbsolute habsolute
  obtain ⟨rest', hbytes'⟩ := bytes_of_isAbsolute ((isAbsolute_parent h).trans habsolute)
  simp [dirname, h, hbytes, hbytes']

/-- An absolute path with a component besides the root has a parent. -/
theorem exists_parent (habsolute : p.isAbsolute = true) (h : p.components ≠ [.root]) :
    ∃ q, p.parent? = some q := by
  obtain ⟨hsteps, -⟩ | ⟨_, _, hparent⟩ | ⟨_, _, _, _, _, _, _, _, hparent⟩ := p.parent_cases
  · rw [components_eq, habsolute, hsteps] at h
    exact absurd rfl h
  · exact ⟨_, hparent⟩
  · exact ⟨_, hparent⟩

end

end Path

end Pinpoint
