import Pinpoint.Patcher
import Pinpoint.Proofs.Changes
import Pinpoint.Proofs.DirectoryText
import Pinpoint.Proofs.SpanBodies

/-!
# Pinning twice

Pinning a pinned text again changes nothing, unless the first time left a token right behind a
literal: the token followed an underscore and was bound, and now it follows an apostrophe.
`Glued` lists the rows of tokens that this happens to, and `pin_idempotent_iff` says that it
happens to no others.
-/

namespace Pinpoint.Marker

/-! ## Literals of a path without tokens -/

/-- No token holds a character that an escape is made of. -/
theorem token_plain (m : Marker) : ∀ c ∈ m.token, c ≠ Quoted.apostrophe ∧ c ≠ '\\' := by
  cases m <;> simp [token] <;> decide

/-- Text that no escape is made of begins an escaped text only where it begins the text itself. -/
theorem prefix_of_prefix_escape {word text : List Char}
    (hword : ∀ c ∈ word, c ≠ Quoted.apostrophe ∧ c ≠ '\\') (h : word <+: Quoted.escape text) :
    word <+: text := by
  induction word generalizing text with
  | nil => exact List.nil_prefix
  | cons d word ih =>
      obtain ⟨hquote, hslash⟩ := hword d (by simp)
      cases text with
      | nil => simp [Quoted.escape] at h
      | cons c text =>
          by_cases hc : c = Quoted.apostrophe
          · simp only [Quoted.escape, hc, if_true] at h
            exact absurd (List.cons_prefix_cons.1 h).1 hslash
          · simp only [Quoted.escape, hc, if_false] at h
            obtain ⟨rfl, hrest⟩ := List.cons_prefix_cons.1 h
            exact List.cons_prefix_cons.2 ⟨rfl, ih (fun c hm => hword c (by simp [hm])) hrest⟩

/-- A token does not begin with any other character than an underscore. -/
theorem token_infix_of_cons {m : Marker} {c : Char} (hc : c ≠ '_') {text : List Char}
    (h : m.token <:+: c :: text) : m.token <:+: text := by
  obtain ⟨tail, htail⟩ := token_eq_cons m
  rcases List.infix_cons_iff.1 h with h | h
  · rw [htail] at h
    exact absurd (List.cons_prefix_cons.1 h).1.symm hc
  · exact h

/-- Escaping brings no token into a text. -/
theorem token_infix_escape {m : Marker} {text : List Char}
    (h : m.token <:+: Quoted.escape text) : m.token <:+: text := by
  induction text with
  | nil => exact h
  | cons c text ih =>
      have hmore : text <:+: c :: text := (List.suffix_cons c text).isInfix
      by_cases hc : c = Quoted.apostrophe
      · simp only [Quoted.escape, hc, if_true] at h
        have h := token_infix_of_cons (by decide) (token_infix_of_cons (by decide) h)
        exact (ih h).trans hmore
      · have hcons : Quoted.escape (c :: text) = c :: Quoted.escape text := by
          simp [Quoted.escape, hc]
        rw [hcons, List.infix_cons_iff, ← hcons] at h
        rcases h with h | h
        · exact (prefix_of_prefix_escape (token_plain m) h).isInfix
        · exact (ih h).trans hmore

/-- Quoting brings no token into a text. -/
theorem token_infix_quote {m : Marker} {text : List Char} (h : m.token <:+: Quoted.quote text) :
    m.token <:+: text := by
  have h := token_infix_of_cons (by decide) h
  rcases List.infix_concat_iff.1 h with h | h
  · rcases List.suffix_concat_iff.1 h with h | ⟨front, hfront, -⟩
    · obtain ⟨tail, htail⟩ := token_eq_cons m
      rw [htail] at h
      cases h
    · have hmem : Quoted.apostrophe ∈ m.token := by simp [hfront]
      exact absurd rfl (token_plain m _ hmem).1
  · exact token_infix_escape h

/-- The literals of a path whose text holds no token hold none either. -/
theorem literal_inert {p : Path} (hp : ∀ m : Marker, ¬ m.token <:+: p.text) (m : Marker) :
    Inert (literal p m) := by
  refine ⟨literal_delimited p m, fun m' h => ?_⟩
  have hlength : 1 < m'.token.length := by cases m' <;> decide
  cases m with
  | directory => exact hp m' (Path.directory_text hlength (token_infix_quote h))
  | file => exact hp m' (token_infix_quote h)

/-! ## Glued tokens -/

/-- The rows of tokens whose first ones are replaced, and whose last one is free only then. -/
def gluedRows : List (List Marker) :=
  [[directory, directory], [file, directory], [directory, file, directory],
    [file, file], [directory, file, file]]

/-- A row of tokens stands free whose last token is bound, until those before it are replaced. -/
def Glued (body : List Char) : Prop :=
  ∃ markers ∈ gluedRows, Stands (row markers) none body

/-- The rows that free a token in a pinned text: the file pass frees what stands behind a file
token, in what the directory pass has left, and that pass what stands behind a directory token. -/
theorem stands_pin_iff {p : Path} (hp : ∀ m : Marker, ¬ m.token <:+: p.text) (m : Marker)
    (body : List Char) :
    Stands m.token none (pin p body).text ↔
      (m = directory ∧ Stands (row [directory, directory]) none body) ∨
        Stands (row [file, m]) none body ∨ Stands (row [directory, file, m]) none body := by
  have hdirectory := literal_inert hp directory
  have hfile := literal_inert hp file
  rw [pin_eq, ← row_single m]
  dsimp only
  rw [stands_substitute_iff hfile, stands_substitute_iff hdirectory,
    stands_substitute_iff hdirectory]
  cases m <;> simp

/-- A pinned text holds a free token exactly if the text before held a glued one. -/
theorem exists_stands_pin_iff {p : Path} (hp : ∀ m : Marker, ¬ m.token <:+: p.text)
    (body : List Char) :
    (∃ m : Marker, Stands m.token none (pin p body).text) ↔ Glued body := by
  simp only [stands_pin_iff hp]
  constructor
  · rintro ⟨m, ⟨rfl, h⟩ | h | h⟩
    · exact ⟨[directory, directory], by simp [gluedRows], h⟩
    · exact ⟨[file, m], by cases m <;> simp [gluedRows], h⟩
    · exact ⟨[directory, file, m], by cases m <;> simp [gluedRows], h⟩
  · rintro ⟨markers, hmem, h⟩
    simp only [gluedRows, List.mem_cons, List.not_mem_nil, or_false] at hmem
    rcases hmem with rfl | rfl | rfl | rfl | rfl
    · exact ⟨directory, .inl ⟨rfl, h⟩⟩
    · exact ⟨directory, .inr (.inl h)⟩
    · exact ⟨directory, .inr (.inr h)⟩
    · exact ⟨file, .inr (.inl h)⟩
    · exact ⟨file, .inr (.inr h)⟩

/-- Pinning a pinned text places no literal exactly if no token was glued. -/
theorem pin_pin_count_iff {p : Path} (hp : ∀ m : Marker, ¬ m.token <:+: p.text)
    (body : List Char) : (pin p (pin p body).text).count = 0 ↔ ¬ Glued body := by
  rw [pin_count_eq_zero_iff, ← exists_stands_pin_iff hp]
  exact not_exists.symm

/-- Pinning a body twice leaves what pinning it once does exactly if the body has no glued markers.
-/
theorem pin_pin_text_iff {p : Path} (hp : ∀ m : Marker, ¬ m.token <:+: p.text)
    (body : List Char) : (pin p (pin p body).text).text = (pin p body).text ↔ ¬ Glued body := by
  rw [← pin_pin_count_iff hp, pin_count_eq_zero_iff_text]

/-! ## Main statement -/

/-- Pinning a tree twice leaves what pinning it once does exactly if no body to be pinned has glued
markers. -/
theorem pinTree_pinTree_iff {p : Path} (hp : ∀ m : Marker, ¬ m.token <:+: p.text) (tree : Span) :
    Patcher.pinTree p (Patcher.pinTree p tree) = Patcher.pinTree p tree ↔
      ∀ s ∈ tree.toList, s.isEligible = true → ¬ Glued s.body.toList := by
  rw [Patcher.pinTree, Patcher.pinTree, Span.mapEligible_mapEligible, Span.mapEligible_eq_iff]
  refine forall_congr' fun s => imp_congr_right fun _ => imp_congr_right fun _ => ?_
  rw [← pin_pin_text_iff hp]
  simp [pinString, String.ofList_inj]

/-- Pinning again to a path that holds no token changes nothing, and places nothing, exactly if
no token was glued: in a body, and in the eligible bodies of a tree. -/
theorem pin_idempotent_iff (p : Path) (hp : ∀ m : Marker, ¬ m.token <:+: p.text) :
    (∀ body, pin p (pin p body).text = ⟨(pin p body).text, 0⟩ ↔ ¬ Glued body) ∧
      ∀ tree, Patcher.pinning.patch p (Patcher.pinning.patch p tree) =
          Patcher.pinning.patch p tree ↔
        ∀ s ∈ tree.toList, s.isEligible = true → ¬ Glued s.body.toList := by
  refine ⟨fun body => ?_, pinTree_pinTree_iff hp⟩
  constructor
  · intro h
    exact (pin_pin_text_iff hp body).1 (by rw [h])
  · intro h
    calc pin p (pin p body).text
        = ⟨(pin p (pin p body).text).text, (pin p (pin p body).text).count⟩ := rfl
      _ = ⟨(pin p body).text, 0⟩ := by
          rw [(pin_pin_text_iff hp body).2 h, (pin_pin_count_iff hp body).2 h]

/-- The statement at a plain path. -/
theorem pin_idempotent_iff_plain :
    let p : Path := ⟨[0x2F, 0x61, 0x2F, 0x62]⟩
    (∀ m : Marker, ¬ m.token <:+: p.text) ∧
      (∀ body, pin p (pin p body).text = ⟨(pin p body).text, 0⟩ ↔ ¬ Glued body) ∧
      ∀ tree, Patcher.pinning.patch p (Patcher.pinning.patch p tree) =
          Patcher.pinning.patch p tree ↔
        ∀ s ∈ tree.toList, s.isEligible = true → ¬ Glued s.body.toList := by
  have hp : ∀ m : Marker, ¬ m.token <:+: (⟨[0x2F, 0x61, 0x2F, 0x62]⟩ : Path).text := by
    intro m
    cases m <;> decide +kernel
  exact ⟨hp, pin_idempotent_iff _ hp⟩

/-- The second of two directory markers is pinned the second time only. -/
theorem pin_twice_directory_directory :
    let p : Path := ⟨[0x2F, 0x61, 0x2F, 0x62]⟩
    let tree := Span.code "__DIR____DIR__"
    (∀ m : Marker, ¬ m.token <:+: p.text) ∧
      Patcher.pinning.patch p tree = Span.code "'/a'__DIR__" ∧
      Patcher.pinning.patch p (Patcher.pinning.patch p tree) = Span.code "'/a''/a'" := by
  refine ⟨fun m => ?_, ?_, ?_⟩
  · cases m <;> decide +kernel
  · decide +kernel
  · decide +kernel

end Pinpoint.Marker
