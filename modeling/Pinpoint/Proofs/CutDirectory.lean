import Mathlib.Data.List.DropRight
import Pinpoint.Proofs.PathParents

/-!
# Directories cut from the text

The directory of a path can also be found in its text, without a word about components: take the
slashes off the end, then the last piece, then the slashes before it. `cutDirname` does so. The
components of what is left are told by `components_join`: those of what stands before a slash, and a
component for every name behind it. `components_dirname_eq_iff` compares the two directories. They
have the same components unless the last piece is a single dot behind a name: the cut takes this dot
for the last part of the path, and `dirname` takes the name.
-/

namespace Pinpoint.Path

/-- Bytes without the slashes at their end. -/
def trimSlashes (bytes : List UInt8) : List UInt8 := bytes.rdropWhile (· == slash)

/-- The last piece of a path, up to the slashes at its end. -/
def lastPiece (p : Path) : List UInt8 := (trimSlashes p.bytes).rtakeWhile (· != slash)

/-- What stands before the last piece of a path, with the slashes between. -/
def beforeLastPiece (p : Path) : List UInt8 := (trimSlashes p.bytes).rdropWhile (· != slash)

/-- The directory of a path as its text tells it: without the slashes at the end, the last piece and
the slashes before it. A dot stands for a path of one piece, a slash for a path where only slashes
are left. -/
def cutDirname (p : Path) : Path :=
  if trimSlashes p.bytes = [] then ⟨[slash]⟩
  else if p.beforeLastPiece = [] then ⟨[dot]⟩
  else if trimSlashes p.beforeLastPiece = [] then ⟨[slash]⟩
  else ⟨trimSlashes p.beforeLastPiece⟩

/-! ## Components of joined paths -/

/-- What a piece behind a slash stands for: a component, or nothing if it is empty or a dot. -/
def named (piece : List UInt8) : List Component :=
  if piece = [] ∨ piece = [dot] then [] else [.ofStep piece]

/-- What bytes behind a slash stand for. -/
def inner (bytes : List UInt8) : List Component := (pieces bytes).flatMap named

/-- Any bytes have a piece, if only an empty one. -/
theorem pieces_ne_nil (bytes : List UInt8) : pieces bytes ≠ [] := by
  rw [pieces_eq_splitOn]
  exact List.splitOn_ne_nil slash bytes

/-- The pieces on both sides of a slash are pieces of their own. -/
theorem pieces_append (front more : List UInt8) :
    pieces (front ++ slash :: more) = pieces front ++ pieces more := by
  induction front with
  | nil => simp [pieces]
  | cons b front ih =>
      by_cases hb : b = slash
      · simp [pieces, hb, ih]
      · obtain ⟨piece, rest, hpieces⟩ := List.exists_cons_of_ne_nil (pieces_ne_nil front)
        simp [pieces, hb, ih, hpieces]

/-- Bytes without a slash are one piece. -/
theorem pieces_of_not_mem {piece : List UInt8} (h : slash ∉ piece) : pieces piece = [piece] := by
  have hone := pieces_intercalate (List.cons_ne_nil piece []) (List.forall_mem_singleton.2 h)
  rwa [List.intercalate_singleton] at hone

/-- Only at the beginning of a path does a dot count. -/
theorem map_filter_names (items : List (List UInt8)) (index : Nat) :
    ((items.zipIdx (index + 1)).filter names).map (fun step => Component.ofStep step.1) =
      items.flatMap named := by
  induction items generalizing index with
  | nil => rfl
  | cons piece items ih =>
      rw [List.zipIdx_cons, List.flatMap_cons, ← ih (index + 1)]
      by_cases hpiece : piece = [] ∨ piece = [dot]
      · have hnames : names (piece, index + 1) = false := by
          rcases hpiece with rfl | rfl
          · rfl
          · simp [names, isStep]
        rw [List.filter_cons_of_neg (by simp [hnames]), named, if_pos hpiece]
        rfl
      · have hnames : names (piece, index + 1) = true := by
          rw [not_or] at hpiece
          simp [names, isStep, hpiece]
        rw [List.filter_cons_of_pos hnames, named, if_neg hpiece]
        rfl

/-- Behind the slash that begins a path, every name is a component. -/
theorem components_slash (more : List UInt8) :
    components ⟨slash :: more⟩ = .root :: inner more := by
  have hpieces : pieces (slash :: more) = [] :: pieces more := by simp [pieces]
  rw [components_eq, steps, hpieces, List.zipIdx_cons, List.filter_cons_of_neg (by decide),
    map_filter_names]
  rfl

/-- Behind any slash of a path, every name is a component. -/
theorem components_join {front : List UInt8} (h : front ≠ []) (more : List UInt8) :
    components ⟨front ++ slash :: more⟩ = components ⟨front⟩ ++ inner more := by
  obtain ⟨b, rest, rfl⟩ := List.exists_cons_of_ne_nil h
  obtain ⟨piece, items, hpieces⟩ := List.exists_cons_of_ne_nil (pieces_ne_nil (b :: rest))
  have hlength : 0 + (piece :: items).length = items.length + 1 := by simp
  rw [components_eq, components_eq, steps, steps, pieces_append, List.zipIdx_append,
    List.filter_append, List.map_append, hpieces, hlength, map_filter_names, List.append_assoc]
  rfl

/-- A path of one piece has one component. -/
theorem components_piece {piece : List UInt8} (hne : piece ≠ []) (h : slash ∉ piece) :
    components ⟨piece⟩ = [.ofStep piece] := by
  obtain ⟨b, rest, rfl⟩ := List.exists_cons_of_ne_nil hne
  have habsolute : isAbsolute ⟨b :: rest⟩ = false := by
    rw [List.mem_cons, not_or] at h
    simpa [isAbsolute] using Ne.symm h.1
  rw [components_eq, steps, pieces_of_not_mem h, habsolute]
  simp [names, isStep]

/-- A path that is not empty has a component. -/
theorem components_ne_nil {bytes : List UInt8} (h : bytes ≠ []) : components ⟨bytes⟩ ≠ [] := by
  obtain ⟨b, rest, rfl⟩ := List.exists_cons_of_ne_nil h
  by_cases hb : b = slash
  · rw [hb, components_slash]
    exact List.cons_ne_nil _ _
  · -- A path that does not begin with a slash begins with a step.
    obtain ⟨piece, more, hpieces⟩ : ∃ piece more, pieces (b :: rest) = (b :: piece) :: more := by
      rw [pieces, if_neg hb]
      cases pieces rest with
      | nil => exact ⟨[], [], rfl⟩
      | cons piece more => exact ⟨piece, more, rfl⟩
    rw [components_eq, steps, hpieces, List.zipIdx_cons,
      List.filter_cons_of_pos (by simp [names, isStep])]
    simp

/-- Slashes before a piece add no component. -/
theorem inner_slashes_append (count : Nat) {piece : List UInt8} (h : slash ∉ piece) :
    inner (List.replicate count slash ++ piece) = named piece := by
  induction count with
  | zero => simp [inner, pieces_of_not_mem h]
  | succ count ih =>
      rw [List.replicate_succ, List.cons_append, inner, pieces, if_pos rfl, List.flatMap_cons]
      exact ih

/-- Slashes alone have no component. -/
theorem inner_slashes (count : Nat) : inner (List.replicate count slash) = [] := by
  have h := inner_slashes_append count (List.not_mem_nil : slash ∉ ([] : List UInt8))
  rwa [List.append_nil] at h

/-- What a piece stands for is not the root. -/
theorem ofStep_ne_root (piece : List UInt8) : Component.ofStep piece ≠ .root := by
  unfold Component.ofStep
  split
  · exact Component.noConfusion
  · split <;> exact Component.noConfusion

/-! ## What the cut leaves -/

section

variable {p : Path}

/-- Bytes are what is left of them without the slashes at their end, and those slashes. -/
theorem exists_trimSlashes (bytes : List UInt8) :
    ∃ count, bytes = trimSlashes bytes ++ List.replicate count slash := by
  refine ⟨(bytes.rtakeWhile (· == slash)).length, ?_⟩
  have hslashes : bytes.rtakeWhile (· == slash) =
      List.replicate (bytes.rtakeWhile (· == slash)).length slash :=
    List.eq_replicate_of_mem fun b hb => by simpa using List.mem_rtakeWhile_imp hb
  rw [← hslashes]
  exact List.rdropWhile_append_rtakeWhile.symm

/-- Slashes at the end of a path are no components, unless there is nothing else. -/
theorem components_trimSlashes {bytes : List UInt8} (h : trimSlashes bytes ≠ []) :
    components ⟨bytes⟩ = components ⟨trimSlashes bytes⟩ := by
  obtain ⟨count, hbytes⟩ := exists_trimSlashes bytes
  conv_lhs => rw [hbytes]
  cases count with
  | zero => rw [List.replicate_zero, List.append_nil]
  | succ count => rw [List.replicate_succ, components_join h, inner_slashes, List.append_nil]

/-- A path of slashes is the root. -/
theorem components_slashes {bytes : List UInt8} (hne : bytes ≠ []) (h : trimSlashes bytes = []) :
    components ⟨bytes⟩ = [.root] := by
  obtain ⟨count, hbytes⟩ := exists_trimSlashes bytes
  rw [h, List.nil_append] at hbytes
  cases count with
  | zero => exact absurd hbytes hne
  | succ count => rw [hbytes, List.replicate_succ, components_slash, inner_slashes]

/-- The last piece of a path holds no slash. -/
theorem slash_not_mem_lastPiece (p : Path) : slash ∉ p.lastPiece := by
  intro hmem
  have := List.mem_rtakeWhile_imp hmem
  simp at this

/-- A path that does not consist of slashes has a last piece. -/
theorem lastPiece_ne_nil (h : trimSlashes p.bytes ≠ []) : p.lastPiece ≠ [] := by
  intro hnil
  have hlast : ¬((trimSlashes p.bytes).getLast h == slash) = true :=
    List.rdropWhile_last_not (· == slash) p.bytes h
  exact List.rtakeWhile_eq_nil_iff.1 hnil h (by simpa using hlast)

/-- Without the slashes at its end a path is what stands before its last piece, and this piece. -/
theorem trim_eq_append (p : Path) : trimSlashes p.bytes = p.beforeLastPiece ++ p.lastPiece :=
  List.rdropWhile_append_rtakeWhile.symm

/-- The last piece has a slash before it, or nothing at all. -/
theorem exists_beforeLastPiece (h : p.beforeLastPiece ≠ []) :
    ∃ count, p.beforeLastPiece =
      trimSlashes p.beforeLastPiece ++ slash :: List.replicate count slash := by
  obtain ⟨count, hbefore⟩ := exists_trimSlashes p.beforeLastPiece
  cases count with
  | succ count => exact ⟨count, hbefore⟩
  | zero =>
      have hlast : ¬(p.beforeLastPiece.getLast h != slash) = true :=
        List.rdropWhile_last_not (· != slash) (trimSlashes p.bytes) h
      have htrim : p.beforeLastPiece.rdropWhile (· == slash) = p.beforeLastPiece := by
        rw [List.replicate_zero, List.append_nil] at hbefore
        exact hbefore.symm
      exact absurd (by simpa using hlast) (List.rdropWhile_eq_self_iff.1 htrim h)

/-- A path is the root; or of one piece, and the cut leaves a dot; or the cut leaves some
components, and the last piece adds what it stands for. -/
theorem cut_cases (h : p.bytes ≠ []) :
    (p.lastPiece = [] ∧ p.components = [.root] ∧ p.cutDirname.components = [.root]) ∨
    (p.components = [.ofStep p.lastPiece] ∧ p.cutDirname.components = [.here]) ∨
    (p.lastPiece ≠ [] ∧ p.cutDirname.components ≠ [] ∧
      p.components = p.cutDirname.components ++ named p.lastPiece) := by
  unfold cutDirname
  split
  · next htrim =>
      -- There are only slashes, and nothing is cut.
      refine .inl ⟨?_, components_slashes h htrim, rfl⟩
      rw [lastPiece, htrim, List.rtakeWhile_nil]
  · next htrim =>
      have hpiece := lastPiece_ne_nil htrim
      have hcomponents : p.components = components ⟨p.beforeLastPiece ++ p.lastPiece⟩ := by
        rw [← trim_eq_append]
        exact components_trimSlashes htrim
      split
      · next hbefore =>
          -- Nothing stands before the last piece.
          refine .inr (.inl ⟨?_, rfl⟩)
          rw [hcomponents, hbefore, List.nil_append]
          exact components_piece hpiece p.slash_not_mem_lastPiece
      · next hbefore =>
          -- The slashes before the last piece go with the cut: they add no component.
          obtain ⟨count, heq⟩ := exists_beforeLastPiece hbefore
          have hjoin : p.components = components ⟨trimSlashes p.beforeLastPiece ++
              slash :: (List.replicate count slash ++ p.lastPiece)⟩ := by
            rw [hcomponents]
            conv_lhs => rw [heq, List.append_assoc, List.cons_append]
          have hinner := inner_slashes_append count p.slash_not_mem_lastPiece
          refine .inr (.inr ⟨hpiece, ?_⟩)
          split
          · next hfront =>
              refine ⟨List.cons_ne_nil _ _, ?_⟩
              rw [hjoin, hfront, List.nil_append, components_slash, hinner]
              rfl
          · next hfront =>
              refine ⟨components_ne_nil hfront, ?_⟩
              rw [hjoin, components_join hfront, hinner]

/-! ## What the directory leaves -/

/-- A path without a parent is the root, unless it is empty. -/
theorem components_of_no_parent (hne : p.bytes ≠ []) (h : p.parent? = none) :
    p.components = [.root] := by
  obtain ⟨hsteps, -⟩ | ⟨_, _, hparent⟩ | ⟨_, _, _, _, _, _, _, _, hparent⟩ := p.parent_cases
  · have hcomponents := components_ne_nil hne
    rw [components_eq, hsteps] at hcomponents ⊢
    cases habsolute : p.isAbsolute with
    | true => rfl
    | false =>
        rw [habsolute] at hcomponents
        exact absurd rfl hcomponents
  · cases h.symm.trans hparent
  · cases h.symm.trans hparent

/-- Components without the last one. The root stays, and a dot stands where nothing is left. -/
def upward (components : List Component) : List Component :=
  if components = [.root] then components
  else if components.dropLast = [] then [.here]
  else components.dropLast

/-- Above a single piece is the directory where one is. -/
theorem upward_piece (piece : List UInt8) : upward [.ofStep piece] = [.here] := by
  have hroot : [Component.ofStep piece] ≠ [.root] := by
    intro heq
    exact ofStep_ne_root piece (List.singleton_inj.1 heq)
  rw [upward, if_neg hroot]
  rfl

/-- Above components that end in one more are those before it. -/
theorem upward_concat {front : List Component} (h : front ≠ []) (last : Component) :
    upward (front ++ [last]) = front := by
  have hroot : front ++ [last] ≠ [.root] := by
    intro heq
    exact h (List.append_inj_left' (heq.trans (List.nil_append _).symm) rfl)
  rw [upward, if_neg hroot, List.dropLast_concat, if_neg h]

/-- Going up changes nothing at the root and at a dot, and nowhere else. -/
theorem upward_eq_self_iff {components : List Component} (h : components ≠ []) :
    upward components = components ↔ components = [.root] ∨ components = [.here] := by
  unfold upward
  split
  · next hroot => simp [hroot]
  · next hroot =>
      split
      · exact ⟨fun heq => .inr heq.symm, fun hends => (hends.resolve_left hroot).symm⟩
      · next hfront =>
          refine iff_of_false (fun heq => ?_) ?_
          · have hlength := congrArg List.length heq
            rw [List.length_dropLast] at hlength
            have := List.length_pos_of_ne_nil h
            omega
          · rintro (hends | hends)
            · exact hroot hends
            · rw [hends] at hfront
              exact hfront rfl

/-- The directory is one component up. -/
theorem components_dirname (h : p.bytes ≠ []) : p.dirname.components = upward p.components := by
  have hempty : ¬p.bytes.isEmpty = true := by simpa using h
  unfold dirname
  rw [if_neg hempty]
  cases hparent : p.parent? with
  | none =>
      rw [upward, if_pos (components_of_no_parent h hparent)]
  | some q =>
      obtain ⟨piece, hpiece⟩ := components_of_parent hparent
      rw [hpiece]
      dsimp only
      split
      · next hq =>
          have hnil : q = ⟨[]⟩ := congrArg Path.mk (List.isEmpty_iff.1 hq)
          rw [hnil]
          exact (upward_piece piece).symm
      · next hq =>
          exact (upward_concat (components_ne_nil (by simpa using hq)) _).symm

/-! ## The two directories -/

/-- Cutting off a dot takes no component. -/
theorem components_cutDirname_of_dot (h : p.bytes ≠ []) (hdot : p.lastPiece = [dot]) :
    p.cutDirname.components = p.components := by
  obtain ⟨hnil, -, -⟩ | ⟨hpath, hcut⟩ | ⟨-, -, hpath⟩ := cut_cases h
  · rw [hnil] at hdot
    cases hdot
  · rw [hcut, hpath, hdot]
    rfl
  · rw [hpath, hdot]
    exact (List.append_nil _).symm

/-- Cutting off any other piece takes the component that it stands for. -/
theorem components_cutDirname_of_ne_dot (h : p.bytes ≠ []) (hdot : p.lastPiece ≠ [dot]) :
    p.cutDirname.components = upward p.components := by
  obtain ⟨-, hpath, hcut⟩ | ⟨hpath, hcut⟩ | ⟨hpiece, hcut, hpath⟩ := cut_cases h
  · rw [hcut, hpath]
    rfl
  · rw [hcut, hpath, upward_piece]
  · have hnamed : named p.lastPiece = [.ofStep p.lastPiece] :=
      if_neg (not_or.2 ⟨hpiece, hdot⟩)
    rw [hpath, hnamed, upward_concat hcut]

end

/-! ## Main statement -/

/-- The directory of a path has the components of the directory that is cut from its text, unless
the last piece is a dot and stands behind something that is neither the root nor a dot. What is cut
then has all components of the path. -/
theorem components_dirname_eq_iff {p : Path} (h : p.bytes ≠ []) :
    (p.dirname.components = p.cutDirname.components ↔
      (p.lastPiece = [dot] → p.components = [.root] ∨ p.components = [.here])) ∧
    (p.lastPiece = [dot] → p.cutDirname.components = p.components) := by
  refine ⟨?_, components_cutDirname_of_dot h⟩
  rw [components_dirname h]
  by_cases hdot : p.lastPiece = [dot]
  · rw [components_cutDirname_of_dot h hdot, upward_eq_self_iff (components_ne_nil h)]
    exact ⟨fun hends _ => hends, fun hends => hends hdot⟩
  · exact iff_of_true (components_cutDirname_of_ne_dot h hdot).symm fun hends => absurd hends hdot

/-- The statement at `//a/./../b//`, and at `/a//.`, where the two differ. -/
theorem components_dirname_eq_iff_dots :
    let p : Path := ⟨[slash, slash, 0x61, slash, dot, slash, dot, dot, slash, 0x62, slash, slash]⟩
    let q : Path := ⟨[slash, 0x61, slash, slash, dot]⟩
    p.bytes ≠ [] ∧ p.dirname.components = [.root, .name [0x61], .up] ∧
      p.dirname.components = p.cutDirname.components ∧
      q.bytes ≠ [] ∧ ¬q.dirname.components = q.cutDirname.components ∧
      q.cutDirname.components = q.components := by
  intro p q
  have hp : p.bytes ≠ [] := by simp [p]
  have hq : q.bytes ≠ [] := by simp [q]
  obtain ⟨hagree, -⟩ := components_dirname_eq_iff hp
  obtain ⟨hdiffer, hcut⟩ := components_dirname_eq_iff hq
  refine ⟨hp, by decide, hagree.2 fun hdot => ?_, hq, ?_, hcut (by decide)⟩
  · exact absurd hdot (by decide)
  · intro heq
    exact absurd (hdiffer.1 heq (by decide)) (by decide)

/-- The directory of `/a/.` is the root, and not `/a`, which the text tells. -/
theorem dirname_behind_dot :
    dirname ⟨[slash, 0x61, slash, dot]⟩ = ⟨[slash]⟩ ∧
      cutDirname ⟨[slash, 0x61, slash, dot]⟩ = ⟨[slash, 0x61]⟩ ∧
      (dirname ⟨[slash, 0x61, slash, dot]⟩).components ≠
        (cutDirname ⟨[slash, 0x61, slash, dot]⟩).components := by
  decide

end Pinpoint.Path
