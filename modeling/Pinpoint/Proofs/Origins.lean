import Pinpoint.Proofs.Changes

/-!
# Where the characters of a pinned text come from

A text after a pass says nothing of where its literals are. `Marker.trace` is the pass over a text
with labels: each character keeps its label, and those of a literal are labelled with the text that
stood before its token. `chars_trace` says that it is the same pass, and `lawful_trace` what stands
before each character. Tracing two passes, one over the text that the other has left, follows the
literals of both into the pinned text: `literals_clear` is that none of them touches a character
that would bind it.
-/

namespace Pinpoint.Marker

/-- A text whose characters have labels. -/
abbrev Labelled (α : Type) := List (Char × α)

variable {α β : Type}

def chars (text : Labelled α) : List Char := text.map Prod.fst

/-- The empty text has no characters. -/
@[simp] theorem chars_nil : chars ([] : Labelled α) = [] := rfl

/-- The characters of a text with a first one are that one and those of the rest. -/
@[simp] theorem chars_cons (x : Char × α) (text : Labelled α) :
    chars (x :: text) = x.1 :: chars text := rfl

/-- The characters of a text in two parts are those of its parts. -/
@[simp] theorem chars_append (text more : Labelled α) :
    chars (text ++ more) = chars text ++ chars more :=
  List.map_append

/-- Where a character of a text comes from that a pass has left. -/
inductive Origin (α : Type) where
  /-- It stood in the text before, under this label. -/
  | kept (label : α)
  /-- It has this place in a literal, whose token stood behind `head` in the text before. -/
  | placed (head : Labelled α) (offset : Nat)
deriving Repr, DecidableEq

/-- A character that a pass keeps. -/
def keep (x : Char × α) : Char × Origin α := (x.1, .kept x.2)

/-- A literal that a pass places for the token behind `head`. -/
def written (literal : List Char) (head : Labelled α) : Labelled (Origin α) :=
  literal.zipIdx.map fun x => (x.1, .placed head x.2)

/-- The marker that a text begins with: its blanks, its token and what follows. -/
def site? (m : Marker) (text : Labelled α) :
    Option (Labelled α × Labelled α × Labelled α) :=
  let run := text.takeWhile fun x => blanks.contains x.1
  let rest := text.dropWhile fun x => blanks.contains x.1
  if m.token.isPrefixOf (chars rest) then
    some (run, rest.take m.token.length, rest.drop m.token.length)
  else none

/-- The marker to replace where a text begins, if the text `read` before it allows one there. -/
def siteBehind? (m : Marker) (read text : Labelled α) :
    Option (Labelled α × Labelled α × Labelled α) :=
  if mayFollow (chars read).getLast? then m.site? text else none

/-- A text that begins with a marker is made of its blanks, its token and what follows. -/
theorem site_eq_some {m : Marker} {text run token rest : Labelled α}
    (h : m.site? text = some (run, token, rest)) :
    text = run ++ (token ++ rest) ∧ AllBlank (chars run) ∧ chars token = m.token := by
  simp only [site?, Option.ite_none_right_eq_some, List.isPrefixOf_iff_prefix, Option.some.injEq,
    Prod.mk.injEq] at h
  obtain ⟨hstart, rfl, rfl, rfl⟩ := h
  refine ⟨by rw [List.take_append_drop, List.takeWhile_append_dropWhile], ?_, ?_⟩
  · intro b hb
    obtain ⟨x, hx, rfl⟩ := List.mem_map.1 hb
    rw [← blanks_contains]
    exact List.all_eq_true.1 List.all_takeWhile x hx
  · rw [chars, List.map_take]
    exact (List.prefix_iff_eq_take.1 hstart).symm

/-- A text begins with a marker exactly if the characters do, whatever their labels. -/
theorem site_eq_none_iff {m : Marker} {text : Labelled α} :
    m.site? text = none ↔ m.behind? (chars text) = none := by
  have hdrop : (chars text).dropWhile blanks.contains =
      chars (text.dropWhile fun x => blanks.contains x.1) := by
    rw [chars, List.dropWhile_map]
    rfl
  simp [site?, behind?, hdrop]

/-- A marker to replace follows a character that binds nothing, and the text is made of its blanks,
its token and what follows. -/
theorem siteBehind_eq_some {m : Marker} {read text run token rest : Labelled α}
    (h : siteBehind? m read text = some (run, token, rest)) :
    isFree (chars read).getLast? = true ∧ text = run ++ (token ++ rest) ∧
      AllBlank (chars run) ∧ chars token = m.token := by
  simp only [siteBehind?, Option.ite_none_right_eq_some, mayFollow_eq_isFree] at h
  exact ⟨h.1, site_eq_some h.2⟩

/-- No marker is to be replaced exactly if the text read binds, or no marker is ahead. -/
theorem siteBehind_eq_none_iff {m : Marker} {read text : Labelled α} :
    siteBehind? m read text = none ↔
      (isFree (chars read).getLast? = true → m.behind? (chars text) = none) := by
  rw [siteBehind?, mayFollow_eq_isFree, ite_eq_right_iff, site_eq_none_iff]

/-- What follows a marker is shorter than the text that it begins. -/
theorem siteBehind_length_lt {m : Marker} {read text run token rest : Labelled α}
    (h : siteBehind? m read text = some (run, token, rest)) : rest.length < text.length := by
  obtain ⟨-, rfl, -, htoken⟩ := siteBehind_eq_some h
  have hlength : token.length = m.token.length := by
    rw [← htoken, chars, List.length_map]
  have hpos : 0 < m.token.length := by cases m <;> decide
  simp only [List.length_append]
  omega

/-- Replaces a marker in a text with labels, behind the text `read` so far. -/
def trace (m : Marker) (literal : List Char) (read : Labelled α) :
    Labelled α → Labelled (Origin α)
  | [] => []
  | x :: rest =>
    match _h : siteBehind? m read (x :: rest) with
    | some (run, token, left) =>
      written literal (read ++ run) ++ trace m literal (read ++ (run ++ token)) left
    | none => keep x :: trace m literal (read ++ [x]) rest
termination_by text => text.length
decreasing_by
  · exact siteBehind_length_lt _h
  · simp

/-! ## The same pass -/

/-- The characters of a literal that a pass places are those of the literal. -/
@[simp] theorem chars_written (literal : List Char) (head : Labelled α) :
    chars (written literal head) = literal := by
  rw [chars, written, List.map_map]
  exact List.zipIdx_map_fst 0 literal

/-- A text that ends with a token ends with an underscore. -/
theorem getLast_chars_token {m : Marker} {token : Labelled α} (h : chars token = m.token)
    (front : Labelled α) : (chars (front ++ token)).getLast? = some '_' := by
  rw [chars_append, h, List.getLast?_append, token_getLast]
  rfl

/-- Whether a character begins a literal. -/
def Origin.opens : Origin α → Bool
  | .placed _ 0 => true
  | _ => false

/-- One character of a literal begins it. -/
theorem countP_written {literal : List Char} (hliteral : Delimited literal) (head : Labelled α) :
    (written literal head).countP (·.2.opens) = 1 := by
  obtain ⟨inner, rfl⟩ := hliteral
  have hlater : ∀ x ∈ (inner ++ [Quoted.apostrophe]).zipIdx 1,
      ¬ (Origin.placed head x.2).opens = true := by
    intro x hx
    have hpos := (List.mem_zipIdx hx).1
    cases hoffset : x.2 with
    | zero => omega
    | succ offset => simp [Origin.opens]
  rw [written, List.zipIdx_cons, List.map_cons, List.countP_cons, List.countP_map]
  simp only [Nat.zero_add, Function.comp_def]
  rw [List.countP_eq_zero.2 hlater]
  rfl

/-- Without its labels, a text is traced as it is substituted, and each literal is opened once. -/
theorem trace_eq_substitute (m : Marker) {literal : List Char} (hliteral : Delimited literal)
    (read text : Labelled α) :
    let pinned := substitute (only m literal) (chars read).getLast? (chars text)
    chars (trace m literal read text) = pinned.text ∧
      (trace m literal read text).countP (·.2.opens) = pinned.count := by
  fun_induction trace m literal read text with
  | case1 read => simp [substitute_nil]
  | case2 read x rest run token left h ih =>
      obtain ⟨hfree, heq, hrun, htoken⟩ := siteBehind_eq_some h
      obtain ⟨ihtext, ihcount⟩ := ih
      rw [← List.append_assoc, getLast_chars_token htoken] at ihtext ihcount
      have hbehind : m.behind? (chars (x :: rest)) = some (chars left) := by
        rw [heq, chars_append, chars_append, htoken]
        exact behind_run_token hrun m (chars left)
      rw [substitute_place hfree (only_self m literal) hbehind, ← List.append_assoc, chars_append,
        chars_written, ihtext, List.countP_append, countP_written hliteral, ihcount, Nat.add_comm]
      exact ⟨rfl, rfl⟩
  | case3 read x rest h ih =>
      have hkeep : Keeps (only m literal) (chars read).getLast? (chars (x :: rest)) :=
        fun hfree => only_eq_none_of literal (siteBehind_eq_none_iff.1 h hfree)
      have hlast : (chars (read ++ [x])).getLast? = some x.1 := by simp
      rw [hlast] at ih
      rw [chars_cons] at hkeep ⊢
      rw [substitute_keep hkeep, chars_cons, ih.1, List.countP_cons, ih.2]
      exact ⟨rfl, rfl⟩

/-! ## The character before -/

/-- Every character of a text has a property together with the one before it; the text stands behind
`before`. -/
def EachBehind (P : Option (Char × α) → Char × α → Prop) (before : Option (Char × α))
    (text : Labelled α) : Prop :=
  ∀ front x back, text = front ++ x :: back → P (front.getLast?.or before) x

/-- Nothing is to be shown of an empty text. -/
theorem eachBehind_nil (P : Option (Char × α) → Char × α → Prop) (before : Option (Char × α)) :
    EachBehind P before [] := by
  intro front x back h
  simp at h

/-- A property of the first character behind `before`, and of all others behind theirs, is one of
each character of the text. -/
theorem eachBehind_cons {P : Option (Char × α) → Char × α → Prop} {before : Option (Char × α)}
    {x : Char × α} {text : Labelled α} (hx : P before x) (htext : EachBehind P (some x) text) :
    EachBehind P before (x :: text) := by
  intro front y back h
  cases front with
  | nil =>
      obtain ⟨rfl, -⟩ := List.cons.inj h
      exact hx
  | cons z front =>
      obtain ⟨rfl, rfl⟩ := List.cons.inj h
      have := htext front y back rfl
      rw [List.getLast?_cons]
      cases hlast : front.getLast? <;> simpa [hlast] using this

/-- A property of each character of two parts, the second behind the first, is one of each character
of both. -/
theorem eachBehind_append {P : Option (Char × α) → Char × α → Prop} {before : Option (Char × α)}
    {text more : Labelled α} (htext : EachBehind P before text)
    (hmore : EachBehind P (text.getLast?.or before) more) : EachBehind P before (text ++ more) := by
  intro front x back h
  rcases List.append_eq_append_iff.1 h with ⟨between, rfl, hbetween⟩ | ⟨between, rfl, hbetween⟩
  · have := hmore between x back hbetween
    rwa [← Option.or_assoc, ← List.getLast?_append] at this
  · cases between with
    | nil =>
        have := hmore [] x back (by simpa using hbetween.symm)
        simpa using this
    | cons y between =>
        obtain ⟨rfl, rfl⟩ := List.cons.inj hbetween
        exact htext front x between rfl

/-- A literal stands clear behind the character `before`. It was placed for a token of `m` that its
pass has read behind `head`; `final` is what becomes of the characters read. No byte before the
literal binds it, and where the blanks before the token followed one that does, the first of them
stands before the literal. -/
structure Clear (m : Marker) (read head : Labelled α) (final : Char × α → Char × β)
    (before : Option (Char × β)) : Prop where
  token : ∃ token rest, read = head ++ (token ++ rest) ∧ chars token = m.token
  free : mayFollow (before.map Prod.fst) = true
  blank : ∀ front c b run, head = front ++ c :: b :: run → mayFollow (some c.1) = false →
    AllBlank (chars (b :: run)) → before = some (final b)

/-- What holds of a character that a pass over the text `read` has left behind `before`. One that is
kept follows the one it followed, if that binds nothing; a literal stands clear. -/
def Lawful (m : Marker) (literal : List Char) (read : Labelled α)
    (before : Option (Char × Origin α)) (x : Char × Origin α) : Prop :=
  match x.2 with
  | .kept label => ∃ head rest, read = head ++ (x.1, label) :: rest ∧
      (mayFollow (head.getLast?.map Prod.fst) = true → before = head.getLast?.map keep)
  | .placed head offset => literal[offset]? = some x.1 ∧
      (offset = 0 → Clear m read head keep before)

/-- No marker is ahead that began with the last blank read, or before it. -/
def Scanned (m : Marker) (read text : Labelled α) : Prop :=
  ∀ done b, read = done ++ [b] → isBlank b.1 = true → isFree (chars done).getLast? = true →
    m.behind? (chars text) = none

/-- The last character of a labelled text is the last of its characters. -/
theorem getLast_chars (text : Labelled α) :
    (chars text).getLast? = text.getLast?.map Prod.fst :=
  List.getLast?_map

/-- Behind a character that the pass keeps no marker is ahead that began before it. -/
theorem scanned_keep {m : Marker} {read rest : Labelled α} {x : Char × α}
    (h : siteBehind? m read (x :: rest) = none) : Scanned m (read ++ [x]) rest := by
  intro done b heq hb hfree
  obtain ⟨rfl, hlast⟩ := List.append_inj heq (by simpa using congrArg List.length heq)
  obtain ⟨rfl, -⟩ := List.cons.inj hlast
  rw [← behind_cons_blank hb]
  exact siteBehind_eq_none_iff.1 h hfree

/-- Behind a token no marker is ahead that began within it. -/
theorem scanned_token {m : Marker} {token : Labelled α} (htoken : chars token = m.token)
    (front text : Labelled α) : Scanned m (front ++ token) text := by
  intro done b heq hb
  have hlast := getLast_chars_token htoken front
  rw [heq, chars_append, List.getLast?_append] at hlast
  have hunderscore : b.1 = '_' := by simpa using hlast
  rw [hunderscore] at hb
  exact absurd hb (by decide)

/-- Where blanks before a token follow a character that binds, the first of them is the last
character read when the literal is placed. -/
theorem read_of_blanks {m : Marker} {read text run token rest front blanks : Labelled α}
    {c b : Char × α} (hsite : siteBehind? m read text = some (run, token, rest))
    (hscan : Scanned m read text) (heq : read ++ run = front ++ c :: b :: blanks)
    (hc : isFree (some c.1) = false) (hblanks : AllBlank (chars (b :: blanks))) :
    read = front ++ [c, b] := by
  obtain ⟨hfree, htext, hrun, htoken⟩ := siteBehind_eq_some hsite
  -- The character that binds is no blank, so it stands in the text read.
  have hnotrun : c ∉ run := fun hmem => by
    have := isFree_of_isBlank (hrun c.1 (List.mem_map_of_mem hmem))
    simp [hc] at this
  rcases List.append_eq_append_iff.1 heq with ⟨between, rfl, hbetween⟩ | ⟨between, rfl, hbetween⟩
  · exact absurd (by simp [hbetween]) hnotrun
  · match between, hbetween with
    | [], hbetween =>
        rw [List.nil_append] at hbetween
        exact absurd (hbetween ▸ List.mem_cons_self) hnotrun
    | [d], hbetween =>
        obtain ⟨rfl, -⟩ := List.cons.inj hbetween
        -- It would be the last one read, and no marker may follow it.
        simp [hc] at hfree
    | d :: e :: more, hbetween =>
        simp only [List.cons_append, List.cons.injEq] at hbetween
        obtain ⟨rfl, rfl, rfl⟩ := hbetween
        rcases List.eq_nil_or_concat more with rfl | ⟨more, x, rfl⟩
        · rfl
        · -- The marker would have been found at the blank before the last one read.
          have hmore : AllBlank (chars more) := fun d hd => hblanks d (by simp [hd])
          have hlast : (chars (front ++ c :: b :: more)).getLast? =
              lastOf (some b.1) (chars more) := by
            have := lastOf_eq_getLast none (chars (front ++ c :: b :: more))
            rw [Option.or_none] at this
            rw [← this]
            simp [lastOf]
          have hfree := isFree_lastOf_run (isFree_of_isBlank (hblanks b.1 (by simp))) hmore
          have hnone := hscan (front ++ c :: b :: more) x (by simp) (hblanks x.1 (by simp))
            (hlast ▸ hfree)
          rw [htext, chars_append, chars_append, htoken, behind_run_token hrun] at hnone
          exact absurd hnone (by simp)

/-- A literal is lawful if it stands clear. -/
theorem lawful_written {m : Marker} {read head : Labelled α} {before : Option (Char × Origin α)}
    (h : Clear m read head keep before) (literal : List Char) :
    EachBehind (Lawful m literal read) before (written literal head) := by
  intro front x back heq
  have hx : (written literal head)[front.length]? = some x := by simp [heq]
  simp only [written, List.getElem?_map, List.getElem?_zipIdx, Nat.zero_add, Option.map_map,
    Option.map_eq_some_iff, Function.comp_apply] at hx
  obtain ⟨c, hc, rfl⟩ := hx
  refine ⟨hc, fun hoffset => ?_⟩
  obtain rfl := List.length_eq_zero_iff.1 hoffset
  exact h

/-- What a pass leaves is lawful, from any place of the text that it reads. -/
theorem lawful_trace (m : Marker) (literal : List Char) (read text : Labelled α)
    (before : Option (Char × Origin α))
    (hbefore : isFree (chars read).getLast? = true → before = read.getLast?.map keep)
    (hscan : Scanned m read text) :
    EachBehind (Lawful m literal (read ++ text)) before (trace m literal read text) := by
  fun_induction trace m literal read text generalizing before with
  | case1 read => exact eachBehind_nil _ _
  | case2 read x rest run token left hsite ih =>
      obtain ⟨hfree, heq, hrun, htoken⟩ := siteBehind_eq_some hsite
      have hlast := getLast_chars_token htoken (read ++ run)
      rw [List.append_assoc] at hlast
      have hrest : (read ++ (run ++ token)) ++ left = read ++ x :: rest := by simp [heq]
      rw [hrest] at ih
      refine eachBehind_append (lawful_written ⟨?_, ?_, ?_⟩ literal) (ih _ (fun h => ?_) ?_)
      · exact ⟨token, left, by simp [heq], htoken⟩
      · rw [hbefore hfree, Option.map_map, mayFollow_eq_isFree]
        rwa [getLast_chars] at hfree
      · intro front c b blanks hhead hc hblanks
        rw [mayFollow_eq_isFree] at hc
        rw [hbefore hfree, read_of_blanks hsite hscan hhead hc hblanks]
        simp
      · rw [hlast] at h
        exact absurd h (by decide)
      · rw [← List.append_assoc]
        exact scanned_token htoken _ _
  | case3 read x rest hsite ih =>
      refine eachBehind_cons ?_ ?_
      · exact ⟨read, rest, rfl, fun h => hbefore (by rwa [getLast_chars, ← mayFollow_eq_isFree])⟩
      · have hrest : (read ++ [x]) ++ rest = read ++ x :: rest := by simp
        rw [hrest] at ih
        exact ih (some (keep x)) (fun _ => by simp) (scanned_keep hsite)

/-! ## Literals under a second pass -/

/-- The label under which a character stood in the text before. -/
def Origin.label? : Origin α → Option α
  | .kept label => some label
  | .placed _ _ => none

/-- A pass keeps every apostrophe that has a label of some kind. -/
theorem countP_trace (m : Marker) (literal : List Char) (P : α → Bool) (read text : Labelled α)
    (h : ∀ x ∈ text, P x.2 = true → x.1 = Quoted.apostrophe) :
    (trace m literal read text).countP (·.2.label?.any P) = text.countP (P ·.2) := by
  fun_induction trace m literal read text with
  | case1 read => rfl
  | case2 read x rest run token left hsite ih =>
      obtain ⟨-, heq, hrun, htoken⟩ := siteBehind_eq_some hsite
      rw [heq] at h ⊢
      have hwritten : (written literal (read ++ run)).countP (·.2.label?.any P) = 0 := by
        simp [written, List.countP_eq_zero, Origin.label?]
      -- What the literal takes the place of holds no apostrophe.
      have hnone : (run ++ token).countP (P ·.2) = 0 := by
        refine List.countP_eq_zero.2 fun y hy hP => ?_
        have hmem : y ∈ run ++ (token ++ left) := by
          rw [← List.append_assoc]
          exact List.mem_append_left left hy
        have hquote := h y hmem hP
        rcases List.mem_append.1 hy with hy | hy
        · have := hrun y.1 (List.mem_map_of_mem hy)
          rw [hquote] at this
          exact absurd this (by decide)
        · have := token_all_binding m y.1 (htoken ▸ List.mem_map_of_mem hy)
          rw [hquote] at this
          exact absurd this (by decide)
      rw [List.countP_append, hwritten, ih fun y hy => h y (by simp [hy]), ← List.append_assoc,
        List.countP_append, hnone]
  | case3 read x rest hsite ih =>
      rw [List.countP_cons, List.countP_cons, ih fun y hy => h y (by simp [hy])]
      rfl

/-- A literal that stands clear before a pass stands clear behind what the pass keeps. -/
theorem Clear.carry {m : Marker} {read head : Labelled α} {final : Char × α → Char × β}
    {before : Option (Char × β)} (h : Clear m read head final before) :
    Clear m read head (keep ∘ final) (before.map keep) where
  token := h.token
  free := by
    rw [Option.map_map]
    exact h.free
  blank front c b run hhead hc hblanks := by
    rw [h.blank front c b run hhead hc hblanks]
    rfl

/-- What holds of a character of a pinned text: it is from a literal of the second pass, from one of
the first, or from the body. The first character of a literal stands clear. -/
def Settled (p : Path) (read : Labelled α) (once : Labelled (Origin α))
    (before : Option (Char × Origin (Origin α))) (x : Char × Origin (Origin α)) : Prop :=
  match x.2 with
  | .placed head offset => (literal p file)[offset]? = some x.1 ∧
      (offset = 0 → Clear file once head keep before)
  | .kept (.placed head offset) => (literal p directory)[offset]? = some x.1 ∧
      (offset = 0 → Clear directory read head (keep ∘ keep) before)
  | .kept (.kept label) => (x.1, label) ∈ read

/-- Two lawful passes leave every character settled: what the first has placed clear, the second
keeps so. -/
theorem settled_of_lawful {p : Path} {read : Labelled α} {once : Labelled (Origin α)}
    (honce : EachBehind (Lawful directory (literal p directory) read) none once)
    {before : Option (Char × Origin (Origin α))} {x : Char × Origin (Origin α)}
    (hx : Lawful file (literal p file) once before x) : Settled p read once before x := by
  obtain ⟨c, origin⟩ := x
  cases origin with
  | placed head offset => exact hx
  | kept origin =>
      obtain ⟨front, rest, heq, hfollows⟩ := hx
      have hfirst := honce front (c, origin) rest heq
      rw [Option.or_none] at hfirst
      cases origin with
      | placed head offset =>
          refine ⟨hfirst.1, fun hoffset => ?_⟩
          have hclear := hfirst.2 hoffset
          rw [hfollows hclear.free]
          exact hclear.carry
      | kept label =>
          obtain ⟨head, rest', heq', -⟩ := hfirst
          simp [Settled, heq']

/-- Each character that a pass leaves of a whole text is lawful: it was kept where it stood, or it
belongs to a literal that stands clear. -/
theorem lawful_pass (m : Marker) (literal : List Char) (read : Labelled α) :
    EachBehind (Lawful m literal read) none (trace m literal [] read) :=
  lawful_trace m literal [] read none (fun _ => rfl) (by simp [Scanned])

/-- A character that begins a literal is an apostrophe. -/
theorem apostrophe_of_opens {m : Marker} {literal : List Char} (hliteral : Delimited literal)
    (read : Labelled α) : ∀ x ∈ trace m literal [] read, x.2.opens = true →
      x.1 = Quoted.apostrophe := by
  intro x hx hopens
  obtain ⟨front, back, heq⟩ := List.append_of_mem hx
  have hlawful := lawful_pass m literal read front x back heq
  obtain ⟨inner, rfl⟩ := hliteral
  match x, hlawful, hopens with
  | (c, .placed head 0), hlawful, _ => exact (Option.some.inj hlawful.1).symm

/-- A pass over a whole text with labels is the replacement of its marker. -/
theorem trace_eq_replace (m : Marker) {literal : List Char} (hliteral : Delimited literal)
    (read : Labelled α) :
    chars (trace m literal [] read) = (replace m literal (chars read)).text ∧
      (trace m literal [] read).countP (·.2.opens) = (replace m literal (chars read)).count := by
  rw [replace_eq]
  exact trace_eq_substitute m hliteral [] read

/-- The characters of a pinned text, followed through both passes. Each literal placed has its first
character in the pinned text, and there it stands at the start or behind a byte that does not bind
it; where the blanks before its marker followed one that does, it stands behind the first of
them. -/
theorem literals_clear (p : Path) (body : List Char) :
    let read := body.zipIdx
    let once := trace directory (literal p directory) [] read
    let twice := trace file (literal p file) [] once
    (chars twice = (pin p body).text ∧
        chars once = (replace directory (literal p directory) body).text) ∧
      (twice.countP (·.2.label?.any Origin.opens) =
          (replace directory (literal p directory) body).count ∧
        twice.countP (·.2.opens) = (replace file (literal p file) (chars once)).count) ∧
      EachBehind (Settled p read once) none twice := by
  intro read once twice
  have hbody : chars read = body := List.zipIdx_map_fst 0 body
  obtain ⟨honce, honceCount⟩ := trace_eq_replace directory (literal_delimited p directory) read
  obtain ⟨htwice, htwiceCount⟩ := trace_eq_replace file (literal_delimited p file) once
  rw [hbody] at honce honceCount
  refine ⟨⟨?_, honce⟩, ⟨?_, htwiceCount⟩, fun front x back heq => ?_⟩
  · rw [htwice, honce]
    rfl
  · have hkept := countP_trace file (literal p file) Origin.opens [] once
      (apostrophe_of_opens (literal_delimited p directory) read)
    rw [hkept, honceCount]
  · have hlawful := lawful_pass file (literal p file) once front x back heq
    exact settled_of_lawful (lawful_pass directory (literal p directory) read) hlawful

/-- The statement at a path that holds a token: a literal of the second pass comes to stand within
one of the first, which still stands behind the first of its blanks. -/
theorem literals_clear_nested :
    let p : Path := ⟨"/__FILE__/b".toUTF8.toList⟩
    let body := "$ \t__DIR__".toList
    let read := body.zipIdx
    (pin p body).text = "$ '/'/__FILE__/b''".toList ∧
      Clear directory read (read.take 3) (keep ∘ keep) (some (' ', .kept (.kept 1))) := by
  intro p body read
  refine ⟨by decide +kernel, ?_⟩
  let once := trace directory (literal p directory) [] read
  have hsplit : trace file (literal p file) [] once =
      [('$', .kept (.kept 0)), (' ', .kept (.kept 1))] ++
        (Quoted.apostrophe, .kept (.placed (read.take 3) 0)) ::
          (trace file (literal p file) [] once).drop 3 := by
    decide +kernel
  exact ((literals_clear p body).2.2 _ _ _ hsplit).2 rfl

end Pinpoint.Marker
