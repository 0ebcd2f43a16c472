import Pinpoint.Proofs.MarkerPlaces

/-!
# Splicing by byte offsets

`Marker.replace` builds its text character by character. A text held in bytes is spliced instead: a
loop goes over the places of the marker, copies what stands between them and puts the literal in
their place. Each round takes bytes by computed offsets, and `splice?` stops without an answer as
soon as one is below 0, out of range, out of order or within a character. `splice_safe` is that this
never happens, and that the loop gives what `replace` does. The loop is followed along the walk of
`replace`: `Tracks` says how the two states belong together.
-/

namespace Pinpoint.Marker

open Utf8

/-! ## The loop -/

/-- Whether the byte before an offset binds nothing, if there is such a byte where one is looked
for. -/
def freeAt? (bytes : List UInt8) : Nat → Option Bool
  | 0 => some true
  | before + 1 => bytes[before]?.map fun b => !isExcluded b

/-- Where the replacement of a marker begins, if it is to be replaced. -/
def replacementStart? (bytes : List UInt8) (runStart tokenStart : Nat) : Option (Option Nat) := do
  if ← freeAt? bytes runStart then return some runStart
  else if runStart < tokenStart then return some (runStart + 1)
  else return none

/-- The state of a loop that copies a text: the bytes written, up to where the text is copied or
replaced, and the literals placed. -/
structure Splice where
  out : List UInt8
  last : Nat
  count : Nat
deriving Repr, DecidableEq

/-- Where a token of that many bytes begins, if it can end there. -/
def tokenStart? (m : Marker) (stop : Nat) : Option Nat :=
  if m.tokenBytes.length ≤ stop then some (stop - m.tokenBytes.length) else none

/-- One round of the loop: copies the text up to the marker and places the literal, or leaves the
marker to a later copy. -/
def Splice.round (m : Marker) (literal bytes : List UInt8) (s : Splice) (found : Found) :
    Option Splice := do
  let tokenStart ← m.tokenStart? found.stop
  match ← replacementStart? bytes found.start tokenStart with
  | none => return s
  | some start =>
    let copied ← slice? bytes s.last start
    return ⟨s.out ++ copied ++ literal, found.stop, s.count + 1⟩

/-- Replaces a marker in a text by its bytes; without an answer if an offset is out of range or cuts
a character. A text in which nothing is replaced is not copied at all. -/
def splice? (m : Marker) (literal bytes : List UInt8) : Option (Option (List UInt8 × Nat)) := do
  let s ← (m.finds 0 bytes).foldlM (Splice.round m literal bytes) ⟨[], 0, 0⟩
  if s.count = 0 then return none
  let copied ← slice? bytes s.last bytes.length
  return some (s.out ++ copied, s.count)

/-! ## Rounds in bounds -/

/-- A round of the loop is in bounds. `tokenStart` is where the token begins, and `start?` where the
replacement does, if the marker is replaced. -/
structure InBounds (m : Marker) (body : String) (s : Splice) (found : Found) (tokenStart : Nat)
    (start? : Option Nat) : Prop where
  stop_eq : found.stop = tokenStart + m.tokenBytes.length
  start_eq : replacementStart? (encode body.toList) found.start tokenStart = some start?
  before_lt : ∀ before, found.start = before + 1 → before < body.utf8ByteSize
  last_le : s.last ≤ found.start
  start_le : found.start ≤ tokenStart
  token_lt : tokenStart < found.stop
  stop_le : found.stop ≤ body.utf8ByteSize
  stop_valid : String.Pos.Raw.IsValid body ⟨found.stop⟩
  copied : ∀ start ∈ start?, s.last ≤ start ∧ start ≤ tokenStart ∧
    String.Pos.Raw.IsValid body ⟨start⟩

/-- A run of the loop over some places of a marker, each of its rounds in bounds. -/
inductive SafeRun (m : Marker) (literal : List UInt8) (body : String) :
    Splice → List Found → Splice → Prop where
  | done (s : Splice) : SafeRun m literal body s [] s
  | round {s next final : Splice} {found : Found} {more : List Found} {tokenStart : Nat}
      {start? : Option Nat} (bounds : InBounds m body s found tokenStart start?)
      (step : s.round m literal (encode body.toList) found = some next)
      (rest : SafeRun m literal body next more final) :
      SafeRun m literal body s (found :: more) final

/-- A safe run is what the loop does. -/
theorem SafeRun.foldlM_eq {m : Marker} {literal : List UInt8} {body : String} {s final : Splice}
    {founds : List Found} (h : SafeRun m literal body s founds final) :
    founds.foldlM (Splice.round m literal (encode body.toList)) s = some final := by
  induction h with
  | done s => rfl
  | round bounds step rest ih =>
      rw [List.foldlM_cons, step, Option.bind_eq_bind, Option.bind_some, ih]

/-- The byte before an offset decides as the character before it does. -/
theorem freeAt_encode (read rest : List Char) :
    freeAt? (encode (read ++ rest)) (encode read).length = some (isFree read.getLast?) := by
  rcases List.eq_nil_or_concat read with rfl | ⟨init, c, rfl⟩
  · rfl
  · obtain ⟨front, b, hc⟩ : ∃ front b, String.utf8EncodeChar c = front ++ [b] := by
      obtain ⟨b, more, heq⟩ := exists_utf8EncodeChar c
      rcases List.eq_nil_or_concat (String.utf8EncodeChar c) with hnil | ⟨front, b, h⟩
      · simp [heq] at hnil
      · exact ⟨front, b, by simpa using h⟩
    have hlast := excluded_last_byte c
    rw [hc] at hlast
    simp only [List.getLast?_append, List.getLast?_singleton, Option.some_or,
      Option.any_some] at hlast
    have hbytes : encode (init ++ [c] ++ rest) = (encode init ++ front) ++ b :: encode rest := by
      simp [encode_cons, hc]
    have hlength : (encode (init ++ [c])).length = (encode init ++ front).length + 1 := by
      simp [encode_cons, hc, Nat.add_assoc]
    rw [List.concat_eq_append, hbytes, hlength, freeAt?, List.getElem?_append_right (Nat.le_refl _),
      Nat.sub_self, List.getElem?_cons_zero, List.getLast?_append]
    simp [isFree, hlast]

/-- Whether a marker is replaced that has the blanks `run` behind `before`. -/
def isReplaced (before : Option Char) (run : List Char) : Bool := isFree before || !run.isEmpty

/-- The blanks that stay when it is: the first, if what stands before it binds. -/
def staying (before : Option Char) (run : List Char) : List Char :=
  if isFree before then [] else run.take 1

/-- The blanks that stay are the first ones of the run. -/
theorem staying_prefix (before : Option Char) (run : List Char) : staying before run <+: run := by
  rw [staying]
  split
  · exact List.nil_prefix
  · exact List.take_prefix 1 run

/-- The replacement of a marker begins behind the blanks that stay. -/
theorem replacementStart_encode (read rest : List Char) {run : List Char} (hrun : AllBlank run) :
    replacementStart? (encode (read ++ (run ++ rest))) (encode read).length
        (encode (read ++ run)).length =
      some (if isReplaced read.getLast? run then
        some (encode (read ++ staying read.getLast? run)).length else none) := by
  rw [replacementStart?, freeAt_encode, isReplaced, staying]
  cases isFree read.getLast? with
  | true => simp
  | false =>
      cases run with
      | nil => simp
      | cons b run =>
          obtain ⟨byte, more, heq, -, -, hmore⟩ := utf8EncodeChar_blank b
          rw [hmore (hrun b (by simp))] at heq
          simp [encode_cons, heq]

/-- The place of a marker that stands behind `read` with the blanks `run`. -/
def Found.behind (m : Marker) (read run : List Char) : Found :=
  ⟨(encode read).length, (encode read).length + (encode (run ++ m.token)).length⟩

section

variable {m : Marker} {body : String} {s : Splice} {front between run left : List Char}

/-- At a marker of the body, a round of the loop is in bounds. -/
theorem inBounds_marker (hbody : body.toList = front ++ between ++ (run ++ (m.token ++ left)))
    (hrun : AllBlank run) (hlast : s.last = (encode front).length) :
    InBounds m body s (.behind m (front ++ between) run)
      (encode (front ++ between ++ run)).length
      (if isReplaced (front ++ between).getLast? run then
        some (encode (front ++ between ++ staying (front ++ between).getLast? run)).length
      else none) := by
  have hpos := tokenBytes_length_pos m
  have hsize : body.utf8ByteSize = (encode (front ++ between)).length +
      (encode (run ++ m.token)).length + (encode left).length := by
    simp [utf8ByteSize_eq, hbody, Nat.add_assoc]
  have htoken : (encode (front ++ between)).length + (encode (run ++ m.token)).length =
      (encode (front ++ between ++ run)).length + m.tokenBytes.length := by
    simp [tokenBytes, Nat.add_assoc]
  have hfront : (encode front).length ≤ (encode (front ++ between)).length := by simp
  have hread : (encode (front ++ between)).length ≤ (encode (front ++ between ++ run)).length := by
    simp
  refine ⟨htoken, ?_, by dsimp only [Found.behind]; omega, by dsimp only [Found.behind]; omega,
    hread, by dsimp only [Found.behind]; omega, by dsimp only [Found.behind]; omega, ?_, ?_⟩
  · rw [hbody]
    exact replacementStart_encode (front ++ between) (m.token ++ left) hrun
  · have hstop : body.toList = (front ++ between ++ (run ++ m.token)) ++ left := by simp [hbody]
    have hvalid := isValid_of_append hstop
    rwa [encode_append, List.length_append] at hvalid
  · -- What stays of the blanks is copied with the text before them.
    intro start hstart
    simp only [Option.mem_def, Option.ite_none_right_eq_some, Option.some.injEq] at hstart
    obtain ⟨-, rfl⟩ := hstart
    obtain ⟨more, hmore⟩ := staying_prefix (front ++ between).getLast? run
    generalize staying (front ++ between).getLast? run = stay at hmore
    subst hmore
    have hstay : body.toList = (front ++ between ++ stay) ++ (more ++ (m.token ++ left)) := by
      simp [hbody]
    refine ⟨?_, ?_, isValid_of_append hstay⟩
    · simp only [hlast, encode_append, List.length_append]
      omega
    · simp only [encode_append, List.length_append]
      omega

/-- A marker that is not replaced is left to a later copy. -/
theorem InBounds.round_left {found : Found} {tokenStart : Nat}
    (h : InBounds m body s found tokenStart none) (literal : List UInt8) :
    s.round m literal (encode body.toList) found = some s := by
  have htoken : m.tokenStart? found.stop = some tokenStart := by simp [tokenStart?, h.stop_eq]
  rw [Splice.round, htoken, Option.bind_eq_bind, Option.bind_some, h.start_eq]
  rfl

/-- A round in bounds that replaces its marker copies the bytes before it, places the literal and
goes on behind the token. -/
theorem InBounds.round_replaced {found : Found} {tokenStart start : Nat}
    (h : InBounds m body s found tokenStart (some start)) (literal : List UInt8)
    {copied : List UInt8} (hcopied : slice? (encode body.toList) s.last start = some copied) :
    s.round m literal (encode body.toList) found =
      some ⟨s.out ++ copied ++ literal, found.stop, s.count + 1⟩ := by
  have htoken : m.tokenStart? found.stop = some tokenStart := by simp [tokenStart?, h.stop_eq]
  rw [Splice.round, htoken, Option.bind_eq_bind, Option.bind_some, h.start_eq, Option.bind_eq_bind,
    Option.bind_some]
  dsimp only
  rw [hcopied]
  rfl

end

/-! ## The loop keeps step with the walk -/

/-- Where the walk meets a token it writes the literal behind the blanks that stay, or it keeps the
token. -/
theorem Walk.meet_eq (w : Walk) (m : Marker) (literal : List Char) :
    w.meet m.token literal =
      if isReplaced w.before w.blanks.reverse then
        ⟨literal.reverse ++ ((staying w.before w.blanks.reverse).reverse ++ w.settled), [],
          some '_', w.count + 1⟩
      else ⟨m.token.reverse ++ w.settled, [], some '_', w.count⟩ := by
  rw [meet, isReplaced, staying, token_getLast]
  cases isFree w.before with
  | true => rfl
  | false =>
      cases hlast : w.blanks.getLast? with
      | none =>
          rw [List.getLast?_eq_none_iff.1 hlast]
          rfl
      | some b =>
          obtain ⟨run, hrun⟩ := List.getLast?_eq_some_iff.1 hlast
          simp [hrun]

/-- The loop keeps step with a walk: of what the walk has gone through, `front` is written and
`between` is left to be copied. -/
structure Tracks (body : String) (front between : List Char) (w : Walk) (s : Splice)
    (text : List Char) : Prop where
  body_eq : body.toList = front ++ between ++ (w.blanks.reverse ++ text)
  last_eq : s.last = (encode front).length
  out_eq : s.out ++ encode between = encode w.settled.reverse
  before_eq : w.before = (front ++ between).getLast?
  count_eq : s.count = w.count
  blank : AllBlank w.blanks

section

variable {m : Marker} {body : String} {front between : List Char} {w : Walk} {s : Splice}

/-- A blank that is gathered leaves the loop where it is. -/
theorem Tracks.gather {c : Char} {rest : List Char} (h : Tracks body front between w s (c :: rest))
    (hc : isBlank c = true) :
    Tracks body front between { w with blanks := c :: w.blanks } s rest where
  body_eq := by simp [h.body_eq]
  last_eq := h.last_eq
  out_eq := h.out_eq
  before_eq := h.before_eq
  count_eq := h.count_eq
  blank := List.forall_mem_cons.2 ⟨hc, h.blank⟩

/-- A character that is kept leaves the loop where it is, with more to copy. -/
theorem Tracks.keep {c : Char} {rest : List Char} (h : Tracks body front between w s (c :: rest)) :
    Tracks body front (between ++ (w.blanks.reverse ++ [c])) (w.keep c) s rest where
  body_eq := by simp [h.body_eq, Walk.keep]
  last_eq := h.last_eq
  out_eq := by
    rw [encode_append, ← List.append_assoc, h.out_eq]
    simp [Walk.keep]
  before_eq := by simp [Walk.keep, ← List.append_assoc]
  count_eq := h.count_eq
  blank := by simp [Walk.keep, AllBlank]

/-- Where the walk meets a token, a round of the loop keeps step. -/
theorem Tracks.meet {left : List Char} (h : Tracks body front between w s (m.token ++ left))
    (literal : List Char) :
    ∃ next front' between',
      s.round m (encode literal) (encode body.toList)
        (.behind m (front ++ between) w.blanks.reverse) = some next ∧
      front' ++ between' = front ++ between ++ (w.blanks.reverse ++ m.token) ∧
      Tracks body front' between' (w.meet m.token literal) next left := by
  have hrun : AllBlank w.blanks.reverse := fun b hb => h.blank b (List.mem_reverse.1 hb)
  have hbounds := inBounds_marker h.body_eq hrun h.last_eq
  rw [← h.before_eq] at hbounds
  rw [Walk.meet_eq]
  by_cases hreplaced : isReplaced w.before w.blanks.reverse = true
  · rw [if_pos hreplaced] at hbounds ⊢
    -- The text between goes out now, with the blank that stays, and the next copy begins behind.
    obtain ⟨more, hmore⟩ := staying_prefix w.before w.blanks.reverse
    generalize staying w.before w.blanks.reverse = stay at hbounds hmore ⊢
    have hcopied : slice? (encode body.toList) s.last (encode (front ++ between ++ stay)).length =
        some (encode (between ++ stay)) := by
      rw [h.body_eq, h.last_eq, ← hmore]
      simpa using slice_encode front (between ++ stay) (more ++ (m.token ++ left))
    refine ⟨_, front ++ between ++ (w.blanks.reverse ++ m.token), [],
      hbounds.round_replaced (encode literal) hcopied, by simp, ?_⟩
    constructor
    · simp [h.body_eq]
    · simp [Found.behind, Nat.add_assoc]
    · simp [← h.out_eq]
    · simp [List.getLast?_append, token_getLast]
    · simp [h.count_eq]
    · simp [AllBlank]
  · rw [if_neg hreplaced] at hbounds ⊢
    -- A marker is left only without blanks before it, and then a later copy takes it along.
    have hblanks : w.blanks = [] := by
      simpa [isReplaced] using (Bool.or_eq_false_iff.1 (Bool.eq_false_iff.2 hreplaced)).2
    refine ⟨s, front, between ++ m.token, hbounds.round_left (encode literal), by simp [hblanks],
      ?_⟩
    constructor
    · simp [h.body_eq, hblanks]
    · exact h.last_eq
    · rw [encode_append, ← List.append_assoc, h.out_eq]
      simp
    · rw [← List.append_assoc, List.getLast?_append, token_getLast]
      rfl
    · exact h.count_eq
    · simp [AllBlank]

/-- From any state in step with a walk, the loop runs in bounds to the end of the text, and is then
in step with the end of the walk. -/
theorem Tracks.run (m : Marker) (literal : List Char) {text : List Char}
    (h : Tracks body front between w s text) :
    ∃ final front' between',
      SafeRun m (encode literal) body s
        (m.finds (encode (front ++ between)).length (encode (w.blanks.reverse ++ text))) final ∧
      Tracks body front' between' (Walk.run m.token literal w text) final [] := by
  -- The walk goes by characters and the loop by markers: a token of the walk is a round of the
  -- loop, and any other character only adds to what the next copy takes.
  fun_induction Walk.run m.token literal w text generalizing s front between with
  | case1 w =>
      have hrun : AllBlank w.blanks.reverse := fun b hb => h.blank b (List.mem_reverse.1 hb)
      have hnone : ¬ m.token <+: [] := by
        simpa using token_append_ne_nil m []
      rw [finds_blanks _ hrun (by simp) hnone, encode_nil, finds]
      exact ⟨s, front, between, .done s, h⟩
  | case2 w c rest hc ih => simpa using ih (h.gather hc)
  | case3 w c rest hc htoken ih =>
      have hrun : AllBlank w.blanks.reverse := fun b hb => h.blank b (List.mem_reverse.1 hb)
      obtain ⟨left, hleft⟩ := List.isPrefixOf_iff_prefix.1 htoken
      rw [drop_token hleft] at ih ⊢
      rw [← hleft] at h ⊢
      obtain ⟨next, front', between', hround, hread, htracks⟩ := h.meet literal
      obtain ⟨final, front'', between'', hsafe, hfinal⟩ := ih htracks
      refine ⟨final, front'', between'', ?_, hfinal⟩
      rw [Walk.meet_blanks, hread, List.reverse_nil, List.nil_append, encode_append,
        List.length_append] at hsafe
      rw [finds_marker m _ hrun]
      exact .round (inBounds_marker h.body_eq hrun h.last_eq) hround hsafe
  | case4 w c rest hc htoken ih =>
      have hrun : AllBlank w.blanks.reverse := fun b hb => h.blank b (List.mem_reverse.1 hb)
      have hblank : isBlank c = false := by simpa using hc
      have hnone : ¬ m.token <+: c :: rest := fun hstart =>
        htoken (List.isPrefixOf_iff_prefix.2 hstart)
      obtain ⟨final, front', between', hsafe, hfinal⟩ := ih h.keep
      refine ⟨final, front', between', ?_, hfinal⟩
      rw [finds_blanks _ hrun (by simpa using hblank) hnone, finds_char _ hblank hnone]
      simpa [Walk.keep, Nat.add_assoc] using hsafe

end

/-! ## Main statement -/

/-- At the end of the text, what is left to be copied completes the text of the walk. -/
theorem Tracks.copy_rest {body : String} {front between : List Char} {w : Walk} {s : Splice}
    (h : Tracks body front between w s []) :
    ∃ copied, slice? (encode body.toList) s.last (encode body.toList).length = some copied ∧
      s.out ++ copied = encode w.text := by
  refine ⟨encode (between ++ w.blanks.reverse), ?_, ?_⟩
  · have hslice := slice_encode front (between ++ w.blanks.reverse) []
    have hbody : front ++ (between ++ w.blanks.reverse) = body.toList := by simp [h.body_eq]
    rwa [List.append_nil, hbody, ← h.last_eq] at hslice
  · rw [encode_append, ← List.append_assoc, h.out_eq]
    simp [Walk.text]

/-- Splicing a text by its bytes never takes an offset that is out of range, out of order or within
a character: each round of its loop is in bounds, and it ends with the bytes of the text in which
the marker is replaced, or with nothing if there is none to replace. -/
theorem splice_safe (m : Marker) (literal body : String) :
    let bytes := fun text : String => text.toUTF8.data.toList
    let pinned := m.replace literal.toList body.toList
    (∃ final, SafeRun m (bytes literal) body ⟨[], 0, 0⟩ (m.finds 0 (bytes body)) final) ∧
      m.splice? (bytes literal) (bytes body) =
        some (if pinned.count = 0 then none
          else some (bytes (String.ofList pinned.text), pinned.count)) := by
  intro bytes pinned
  simp only [bytes, ← encode_toList, String.toList_ofList]
  have hstart : Tracks body [] [] .start ⟨[], 0, 0⟩ body.toList := by
    constructor <;> simp [Walk.start, AllBlank]
  obtain ⟨final, front, between, hsafe, hfinal⟩ := hstart.run m literal.toList
  change SafeRun m _ body _ (m.finds 0 (encode body.toList)) final at hsafe
  refine ⟨⟨final, hsafe⟩, ?_⟩
  have hcount : final.count = pinned.count := hfinal.count_eq
  obtain ⟨copied, hcopied, htext⟩ := hfinal.copy_rest
  rw [splice?, hsafe.foldlM_eq, Option.bind_eq_bind, Option.bind_some, hcount]
  split
  · rfl
  · rw [hcopied, Option.bind_eq_bind, Option.bind_some, htext]
    rfl

end Pinpoint.Marker
