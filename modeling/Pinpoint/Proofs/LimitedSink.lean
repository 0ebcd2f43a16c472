import Pinpoint.Proofs.WorkSteps

/-!
# A run on a sink with a limit

A sink that takes so many bytes and no more holds, after any calls on a run, the first bytes of what
the calls write where nothing is refused. The run goes another way from the first text that does not
fit: the counts that it shows from there on would differ. `calls_full` is why none of that is seen,
for every call begins with a text that a full sink refuses. `limited_holds_first_bytes` adds which
calls fail.
-/

namespace Pinpoint

/-- The bytes of some texts, one behind the other. -/
def bytesOf (texts : List String) : ByteArray := (String.join texts).toUTF8

/-- The bytes of texts are told part by part. -/
theorem bytesOf_append (texts more : List String) :
    bytesOf (texts ++ more) = bytesOf texts ++ bytesOf more := by
  rw [bytesOf, String.join_append]
  exact String.toByteArray_append

/-- The bytes of texts begin with those of the first. -/
theorem bytesOf_cons (text : String) (rest : List String) :
    bytesOf (text :: rest) = text.toUTF8 ++ bytesOf rest := by
  rw [bytesOf, String.join_cons]
  exact String.toByteArray_append

/-- Of no texts there are no bytes to take. -/
theorem extract_bytesOf_nil (count : Nat) : (bytesOf []).extract 0 count = ByteArray.empty :=
  ByteArray.extract_eq_empty_iff.2 (by simp [bytesOf])

/-- There are no more first bytes than there are bytes. -/
theorem extract_min_size (bytes : ByteArray) (count : Nat) :
    bytes.extract 0 (min count bytes.size) = bytes.extract 0 count := by
  have hsize : bytes.data.size = bytes.size := rfl
  apply ByteArray.ext
  rw [ByteArray.data_extract, ByteArray.data_extract, Array.extract_eq_extract_right]
  omega

/-- The first bytes are all bytes where there are no more than asked for. -/
theorem extract_of_size_le {bytes : ByteArray} {count : Nat} (h : bytes.size ≤ count) :
    bytes.extract 0 count = bytes := by
  rw [← extract_min_size, Nat.min_eq_right h, ByteArray.extract_zero_size]

/-- The first bytes of two texts are those of the first one where it does not fit. -/
theorem extract_append_of_lt {bytes : ByteArray} {count : Nat} (h : count < bytes.size)
    (more : ByteArray) : (bytes ++ more).extract 0 count = bytes.extract 0 count := by
  have hnone : more.extract (0 - bytes.size) (count - bytes.size) = ByteArray.empty := by
    rw [ByteArray.extract_eq_empty_iff]
    omega
  rw [ByteArray.extract_append, hnone, ByteArray.append_empty]

/-- Where it fits, they are the whole first one and what still fits of the other. -/
theorem extract_append_of_le {bytes : ByteArray} {count : Nat} (h : bytes.size ≤ count)
    (more : ByteArray) :
    (bytes ++ more).extract 0 count = bytes ++ more.extract 0 (count - bytes.size) := by
  rw [ByteArray.extract_append, extract_of_size_le h, Nat.zero_sub]

namespace Sink

/-- A sink with a limit holds what fits of the texts that it is offered, and takes all of them
exactly if all of their bytes fit. -/
theorem offer_limited (held : ByteArray) (room : Nat) (texts : List String) :
    (limited.offer ⟨held, some room⟩ texts).1 =
        ⟨held ++ (bytesOf texts).extract 0 room, some (room - (bytesOf texts).size)⟩ ∧
      ((limited.offer ⟨held, some room⟩ texts).2 = texts.length ↔
        (bytesOf texts).size ≤ room) := by
  induction texts generalizing held room with
  | nil =>
      rw [extract_bytesOf_nil]
      simp [offer, bytesOf]
  | cons text rest ih =>
      rw [bytesOf_cons, ByteArray.size_append]
      by_cases hfits : text.toUTF8.size ≤ room
      · have hwrite : limited.write ⟨held, some room⟩ text =
            (⟨held ++ text.toUTF8, some (room - text.toUTF8.size)⟩, true) := if_pos hfits
        obtain ⟨hheld, hcount⟩ := ih (held ++ text.toUTF8) (room - text.toUTF8.size)
        simp only [offer, hwrite]
        refine ⟨?_, ?_⟩
        · rw [hheld, extract_append_of_le hfits, ByteArray.append_assoc, Nat.sub_sub]
        · rw [List.length_cons, Nat.add_right_cancel_iff, hcount]
          omega
      · have hwrite : limited.write ⟨held, some room⟩ text =
            (⟨held ++ text.toUTF8.extract 0 room, some 0⟩, false) := if_neg hfits
        simp only [offer, hwrite]
        refine ⟨?_, ?_⟩
        · rw [extract_append_of_lt (by omega), Nat.sub_eq_zero_of_le (by omega)]
        · simp only [List.length_cons]
          omega

end Sink

/-- On a sink with a limit a work is done to its end exactly if all of its bytes fit. -/
theorem Work.run_limited (w : Work) (held : ByteArray) (room : Nat) :
    let ran := w.run Sink.limited ⟨held, some room⟩
    ran.1 = ⟨held ++ (bytesOf w.texts).extract 0 room, some (room - (bytesOf w.texts).size)⟩ ∧
      ran.2.2 = decide ((bytesOf w.texts).size ≤ room) ∧
      ((bytesOf w.texts).size ≤ room → ran.2.1 = w.final) := by
  obtain ⟨hheld, hcount⟩ := Sink.offer_limited held room w.texts
  rw [Work.run_eq]
  refine ⟨hheld, decide_eq_decide.2 hcount, fun hfits => ?_⟩
  show w.stateAt _ = w.final
  rw [hcount.2 hfits, Work.stateAt_length]

namespace Progress

/-! ## Every call writes -/

/-- A text in a style is not empty if the text is not. -/
theorem paint_ne_empty (p : Progress) (style : Option Style) {text : String} (h : text ≠ "") :
    p.paint style text ≠ "" := by
  unfold paint Style.paint
  split
  · split
    · simp [Style.apply, Style.opening]
    · exact h
  · exact h

/-- A text that is not empty has bytes. -/
theorem bytesOf_pos {text : String} (h : text ≠ "") (rest : List String) :
    0 < (bytesOf (text :: rest)).size := by
  have htext : text.utf8ByteSize ≠ 0 := by simpa using h
  rw [bytesOf_cons, ByteArray.size_append]
  have : text.toUTF8.size = text.utf8ByteSize := rfl
  omega

/-- The mark of an outcome is not empty. -/
theorem glyph_ne_empty (o : Outcome) : o.glyph ≠ "" := by
  cases o <;> decide

/-- The first text of a call is not empty, whatever the state. -/
theorem bytesOf_call_pos (p : Progress) (c : Call) : 0 < (bytesOf (p.call c).texts).size := by
  cases c with
  | begin total => exact bytesOf_pos (by decide) []
  | report r => exact bytesOf_pos (p.paint_ne_empty _ (glyph_ne_empty r.outcome)) _
  | finish =>
      obtain ⟨blanks, hblanks⟩ : ∃ blanks, p.padding = blanks + 1 :=
        Nat.exists_eq_succ_of_ne_zero (Nat.ne_of_gt p.padding_pos)
      show 0 < (bytesOf p.finish.texts).size
      rw [texts_finish, hblanks, List.replicate_succ]
      exact bytesOf_pos (by decide) _

/-! ## Calls on a sink with a limit -/

/-- On a full sink every call fails and leaves it as it is. -/
theorem calls_full (held : ByteArray) (p : Progress) (cs : List Call) :
    (calls Sink.limited ⟨held, some 0⟩ p cs).1 = ⟨held, some 0⟩ ∧
      (calls Sink.limited ⟨held, some 0⟩ p cs).2.2 = cs.map fun _ => false := by
  induction cs generalizing p with
  | nil => exact ⟨rfl, rfl⟩
  | cons c rest ih =>
      obtain ⟨hheld, htaken, -⟩ := (p.call c).run_limited held 0
      have hpos := p.bytesOf_call_pos c
      rw [ByteArray.extract_same, ByteArray.append_empty, Nat.zero_sub] at hheld
      rw [decide_eq_false (by omega)] at htaken
      obtain ⟨hrest, hresults⟩ := ih ((p.call c).run Sink.limited ⟨held, some 0⟩).2.1
      simp only [calls, hheld, htaken, List.map_cons]
      exact ⟨hrest, congrArg _ hresults⟩

/-- The texts of calls are those of the first call and of the others behind it. -/
theorem textsOf_cons (p : Progress) (c : Call) (rest : List Call) :
    p.textsOf (c :: rest) = (p.call c).texts ++ (p.call c).final.textsOf rest := rfl

/-- From any state, a sink with room for some bytes takes as many of those that the calls write, and
a call succeeds exactly if all that is written up to its end fits. -/
theorem calls_limited (held : ByteArray) (room : Nat) (p : Progress) (cs : List Call) :
    (calls Sink.limited ⟨held, some room⟩ p cs).1.held =
        held ++ (bytesOf (p.textsOf cs)).extract 0 room ∧
      (calls Sink.limited ⟨held, some room⟩ p cs).2.2 =
        (List.range cs.length).map fun i =>
          decide ((bytesOf (p.textsOf (cs.take (i + 1)))).size ≤ room) := by
  induction cs generalizing held room p with
  | nil => simp [calls, textsOf, extract_bytesOf_nil]
  | cons c rest ih =>
      obtain ⟨hheld, htaken, hfinal⟩ := (p.call c).run_limited held room
      have hfirst : (bytesOf (p.textsOf [c])).size = (bytesOf (p.call c).texts).size := by
        rw [textsOf_cons, textsOf, List.append_nil]
      simp only [calls, hheld, htaken, List.length_cons, List.range_succ_eq_map, List.map_cons,
        List.map_map, Function.comp_def, List.take_succ_cons, List.take_zero, hfirst,
        Nat.succ_eq_add_one]
      simp only [textsOf_cons, bytesOf_append, ByteArray.size_append]
      by_cases hfits : (bytesOf (p.call c).texts).size ≤ room
      · -- The call fits, and leaves the calls behind it the room that it does not take.
        obtain ⟨hrest, hresults⟩ := ih (held ++ (bytesOf (p.call c).texts).extract 0 room)
          (room - (bytesOf (p.call c).texts).size) (p.call c).final
        rw [hfinal hfits, hrest, hresults, extract_append_of_le hfits, extract_of_size_le hfits]
        refine ⟨ByteArray.append_assoc, congrArg _ ?_⟩
        refine List.map_congr_left fun i _ => decide_eq_decide.2 ?_
        omega
      · -- The call fills the sink, and nothing that follows is taken.
        have hfull : room - (bytesOf (p.call c).texts).size = 0 := by omega
        obtain ⟨hrest, hresults⟩ := calls_full
          (held ++ (bytesOf (p.call c).texts).extract 0 room)
          ((p.call c).run Sink.limited ⟨held, some room⟩).2.1 rest
        rw [hfull, hrest, hresults, extract_append_of_lt (by omega)]
        refine ⟨rfl, congrArg _ ?_⟩
        refine List.ext_getElem (by simp) fun i _ _ => ?_
        simp only [List.getElem_map]
        exact (decide_eq_false (by omega)).symm

/-- A sink without a limit holds all texts of the calls. -/
theorem unlimited_calls (p : Progress) (cs : List Call) :
    (calls .unlimited "" p cs).1 = String.join (p.textsOf cs) := by
  obtain ⟨hheld, -, -⟩ := calls_of_keeps Sink.unlimited_keeps "" p cs
  exact hheld.trans String.empty_append

/-- After any calls, a sink that takes `limit` bytes holds the first ones of what the calls write to
a sink that takes all. A call succeeds exactly if what is written up to its end stays within the
limit, so the first to fail is the first that goes past it. -/
theorem limited_holds_first_bytes (p : Progress) (cs : List Call) (limit : Nat) :
    let whole := (calls .unlimited "" p cs).1.toUTF8
    let cut := calls .limited (.empty (some limit)) p cs
    let written (count : Nat) := (calls .unlimited "" p (cs.take count)).1.toUTF8.size
    cut.1.held = whole.extract 0 (min limit whole.size) ∧
      cut.2.2 = (List.range cs.length).map (fun i => decide (written (i + 1) ≤ limit)) ∧
      cut.2.2.findIdx (fun succeeded => !succeeded) =
        (List.range cs.length).findIdx fun i => limit < written (i + 1) := by
  intro whole cut written
  obtain ⟨hheld, hresults⟩ := calls_limited ByteArray.empty limit p cs
  have hwhole : whole = bytesOf (p.textsOf cs) := congrArg String.toUTF8 (unlimited_calls p cs)
  have hwritten : ∀ count, written count = (bytesOf (p.textsOf (cs.take count))).size :=
    fun count => congrArg (fun text => text.toUTF8.size) (unlimited_calls p (cs.take count))
  have hcut : cut.2.2 =
      (List.range cs.length).map fun i => decide (written (i + 1) ≤ limit) := by
    simp only [hwritten]
    exact hresults
  refine ⟨?_, hcut, ?_⟩
  · rw [hwhole, extract_min_size]
    exact hheld.trans ByteArray.empty_append
  · rw [hcut, List.findIdx_map]
    congr 1
    funext i
    simp only [Function.comp_apply, ← decide_not, Nat.not_le]

end Progress

end Pinpoint
