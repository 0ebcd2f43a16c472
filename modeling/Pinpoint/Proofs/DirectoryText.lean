import Pinpoint.Marker
import Pinpoint.Proofs.PathParents

/-!
# The text of a directory

The directory of a path is cut from the path's own bytes at a slash. A slash is a character of its
own wherever it stands, so decoding the part before it gives a part of the decoded path, also where
the bytes are no text. `directory_text` puts this together for the words of the text, and
`dirname_agrees` for the literals of absolute paths.
-/

namespace Pinpoint

namespace Utf8

/-- A byte that must follow another is never in the range of ASCII. -/
theorem lead_bounds {b : UInt8} {lead : Lead} (h : lead? b = some lead) :
    ∀ bound ∈ lead.bounds, 0x80 ≤ bound.1 := by
  unfold lead? at h
  repeat' split at h
  all_goals simp only [Option.some.injEq, reduceCtorEq] at h
  all_goals simp [← h, following]

/-- An ASCII byte ends the reading of the bytes that must follow, whatever stands behind it. -/
theorem tail_append {bounds : List (UInt8 × UInt8)} (hbounds : ∀ bound ∈ bounds, 0x80 ≤ bound.1)
    {b : UInt8} (hb : b < 0x80) (bits : Nat) (bytes more : List UInt8) :
    tail bounds bits (bytes ++ b :: more) =
      ((tail bounds bits bytes).1, (tail bounds bits bytes).2 ++ b :: more) := by
  induction bounds generalizing bits bytes with
  | nil => simp [tail]
  | cons bound bounds ih =>
      cases bytes with
      | nil =>
          have hlow : ¬ bound.1 ≤ b := by
            have := hbounds bound (by simp)
            rw [UInt8.le_iff_toNat_le, UInt8.lt_iff_toNat_lt] at *
            omega
          simp [tail, hlow]
      | cons c bytes =>
          rw [List.cons_append, tail, tail]
          split
          · exact ih (fun bound hm => hbounds bound (by simp [hm])) _ bytes
          · simp

/-- Bytes before an ASCII byte are decoded on their own. -/
theorem decode_append {b : UInt8} (hb : b < 0x80) (bytes more : List UInt8) :
    decode (bytes ++ b :: more) = decode bytes ++ decode (b :: more) := by
  fun_induction decode bytes with
  | case1 => rfl
  | case2 c bytes hlead ih =>
      rw [List.cons_append, decode]
      simp [hlead, ih]
  | case3 c bytes lead hlead hle ih =>
      rw [List.cons_append, decode]
      simp [hlead, tail_append (lead_bounds hlead) hb, ih]

/-- An ASCII byte is a character of its own. -/
theorem decode_ascii {b : UInt8} (hb : b ≤ 0x7F) (bytes : List UInt8) :
    decode (b :: bytes) = Char.ofNat b.toNat :: decode bytes := by
  rw [decode]
  simp [lead?, hb, tail]

end Utf8

namespace Path

/-- The directory of a path is the path itself, a dot, a slash, or what stands before one of the
path's slashes. -/
theorem dirname_cases (p : Path) :
    p.dirname = p ∨ p.dirname.bytes = [dot] ∨ p.dirname.bytes = [slash] ∨
      ∃ rest, p.bytes = p.dirname.bytes ++ slash :: rest := by
  unfold dirname
  split
  · exact .inl rfl
  · cases hparent : p.parent? with
    | none => exact .inl rfl
    | some parent =>
        dsimp only
        split
        · exact .inr (.inl rfl)
        · next hne =>
            obtain hnil | ⟨hslash, -⟩ | hrest := bytes_parent hparent
            · exact absurd (List.isEmpty_iff.2 hnil) hne
            · exact .inr (.inr (.inl hslash))
            · exact .inr (.inr (.inr hrest))

/-- The text of the directory holds no word that the text of the path does not, a single character
apart. -/
theorem directory_text {p : Path} {word : List Char} (hword : 1 < word.length)
    (h : word <:+: p.dirname.text) : word <:+: p.text := by
  have hone : ∀ c : Char, ¬ word <:+: [c] := fun c hc => by
    have := hc.length_le
    simp only [List.length_singleton] at this
    omega
  rcases dirname_cases p with heq | heq | heq | ⟨rest, heq⟩
  · rwa [heq] at h
  · rw [text, heq, Utf8.decode_ascii (by decide), Utf8.decode] at h
    exact absurd h (hone _)
  · rw [text, heq, Utf8.decode_ascii (by decide), Utf8.decode] at h
    exact absurd h (hone _)
  · rw [text, heq, Utf8.decode_append (by decide)]
    exact h.trans (List.prefix_append _ _).isInfix

/-- A slash is a character of its own, also behind bytes that are no text, so the text of a parent
begins the text of the path. -/
theorem text_parent_prefix {p q : Path} (h : p.parent? = some q) : q.text <+: p.text := by
  unfold text
  obtain hnil | ⟨hslash, rest, hbytes⟩ | ⟨rest, hbytes⟩ := bytes_parent h
  · rw [hnil, Utf8.decode]
    exact List.nil_prefix
  · rw [hslash, hbytes, Utf8.decode_ascii (by decide), Utf8.decode_ascii (by decide), Utf8.decode]
    exact List.prefix_append [_] _
  · rw [hbytes, Utf8.decode_append (by decide)]
    exact List.prefix_append _ _

end Path

/-- Escaping the parts of a text escapes the text. -/
theorem Quoted.escape_append (text more : List Char) :
    Quoted.escape (text ++ more) = Quoted.escape text ++ Quoted.escape more := by
  induction text with
  | nil => rfl
  | cons c text ih =>
      rw [List.cons_append, escape, escape, ih]
      split
      · rfl
      · rfl

/-- The directory of an absolute path, if there is more to the path than the root, begins the path
and has its components but for the last one. Its literal, without the apostrophe that closes it,
begins the literal of the path. -/
theorem Path.dirname_agrees {p : Path} (habsolute : p.isAbsolute = true)
    (h : p.components ≠ [.root]) :
    p.dirname.bytes <+: p.bytes ∧ p.dirname.components = p.components.dropLast ∧
      ∃ front more, Marker.literal p .directory = front ++ [Quoted.apostrophe] ∧
        Marker.literal p .file = front ++ more ++ [Quoted.apostrophe] := by
  obtain ⟨q, hparent⟩ := exists_parent habsolute h
  obtain ⟨rest, htext⟩ := text_parent_prefix hparent
  have hdirname := dirname_of_parent habsolute hparent
  refine ⟨hdirname ▸ prefix_parent hparent, hdirname ▸ components_parent hparent,
    Quoted.apostrophe :: Quoted.escape q.text, Quoted.escape rest, ?_, ?_⟩
  · show Quoted.quote p.dirname.text = _
    rw [hdirname]
    rfl
  · show Quoted.quote p.text = _
    rw [← htext, Quoted.quote, Quoted.escape_append]
    rfl

/-- The three hold of `/a//'` and half a character, a dot, and a name with a slash behind it. -/
theorem Path.dirname_agrees_broken :
    let p : Path := ⟨[0x2F, 0x61, 0x2F, 0x2F, 0x27, 0xC3, 0x2F, 0x2E, 0x2F, 0x62, 0x2F]⟩
    p.isAbsolute = true ∧ p.components ≠ [.root] ∧
      p.dirname.bytes = [0x2F, 0x61, 0x2F, 0x2F, 0x27, 0xC3] ∧ p.dirname.bytes <+: p.bytes ∧
      p.dirname.components = [.root, .name [0x61], .name [0x27, 0xC3]] ∧
      p.dirname.components = p.components.dropLast ∧
      ∃ front more, Marker.literal p .directory = front ++ [Quoted.apostrophe] ∧
        Marker.literal p .file = front ++ more ++ [Quoted.apostrophe] := by
  intro p
  obtain ⟨hbegins, hcomponents, hliterals⟩ :=
    dirname_agrees (p := p) (by decide) (by decide)
  exact ⟨by decide, by decide, by decide, hbegins, by decide, hcomponents, hliterals⟩

end Pinpoint
