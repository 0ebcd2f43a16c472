import Pinpoint.Command.Run
import Pinpoint.Proofs.JsonReading

/-!
# Trees read back from their documents

A level of a tree takes two of the lists and records that a document may nest: the record of a span
and the list of its children, which is written even where there are none. `read_spaced` follows the
reader down a written tree with any blanks between its parts, and finds that it answers the tree if
its levels fit, and otherwise refuses it. `ofString_written` draws the conclusion for the forms in
which trees are written.
-/

namespace Pinpoint.Span

open Json (Fault Reader Spacing)
open Json.Document (comma spaced spacedList spacedRecord)

mutual

/-- The number of levels of a tree. A span without children is one. -/
def levels : Span → Nat
  | ⟨_, _, _, children⟩ => levelsAll children + 1

def levelsAll : List Span → Nat
  | [] => 0
  | s :: rest => max (levels s) (levelsAll rest)

end

/-! ## Written trees -/

variable (sp : Spacing)

/-- A span is written as its four fields. -/
theorem spaced_toDocument (level : Nat) (s : Span) (rest : List Char) :
    spaced sp level s.toDocument ++ rest =
      '\x7b' :: (comma true ++ (sp.line (level + 1) ++ (Json.quoted "kind" ++
        ':' :: (sp.colon ++ (Json.quoted s.kind.name ++
      (comma false ++ (sp.line (level + 1) ++ (Json.quoted "body" ++
        ':' :: (sp.colon ++ (Json.quoted s.body ++
      (comma false ++ (sp.line (level + 1) ++ (Json.quoted "processable" ++
        ':' :: (sp.colon ++ (spaced sp (level + 1) (.boolean s.processable) ++
      (comma false ++ (sp.line (level + 1) ++ (Json.quoted "children" ++
        ':' :: (sp.colon ++ (spaced sp (level + 1) (.list (toDocuments s.children)) ++
      (sp.line level ++ '\x7d' :: rest))))))))))))))))))))) := by
  cases s
  simp [toDocument, spaced, spacedRecord]

/-- A span takes more than four characters to write. -/
theorem four_lt_length_spaced (level : Nat) (s : Span) :
    4 < (spaced sp level s.toDocument).length := by
  rw [← List.append_nil (spaced sp level s.toDocument), spaced_toDocument]
  simp
  omega

/-- The children of a span take fewer characters to write than the span. -/
theorem length_spacedList_lt (level : Nat) (s : Span) :
    (spacedList sp (level + 1 + 1) true (toDocuments s.children)).length <
      (spaced sp level s.toDocument).length := by
  rw [← List.append_nil (spaced sp level s.toDocument), spaced_toDocument]
  simp [spaced]
  omega

/-- Spans are no more than the characters that it takes to write them. -/
theorem length_le_spacedList (level : Nat) (first : Bool) (ss : List Span) :
    ss.length ≤ (spacedList sp level first (toDocuments ss)).length := by
  induction ss generalizing first with
  | nil => simp
  | cons s rest ih =>
      have hs := four_lt_length_spaced sp level s
      have hrest := ih false
      simp only [toDocuments, spacedList, List.length_append, List.length_cons]
      omega

/-! ## The fields of a span -/

section

variable {sp} {size depth : Nat} {child : Reader Span} {f : Fields}

/-- A kind is found under the name that it is written with. -/
theorem lookup_name (kind : SpanKind) : SpanKind.named.lookup kind.name = some kind := by
  cases kind <;> rfl

/-- A kind that is written is read back into its field. -/
theorem member_kind (h : f.kind = none) (kind : SpanKind) (rest : List Char) :
    Fields.member size depth child f "kind" (':' :: (sp.colon ++ (Json.quoted kind.name ++ rest))) =
      .ok ({ f with kind := some kind }, rest) := by
  rw [Fields.member, if_pos rfl, h, Json.field_next,
    Json.choice_quoted (lookup_name kind) depth sp.colon_blank]
  rfl

/-- A body that is written is read back into its field. -/
theorem member_body (h : f.body = none) (body : String) (rest : List Char) :
    Fields.member size depth child f "body" (':' :: (sp.colon ++ (Json.quoted body ++ rest))) =
      .ok ({ f with body := some body }, rest) := by
  rw [Fields.member, if_neg (by decide), if_pos rfl, h, Json.field_next,
    Json.string_quoted sp.colon_blank]
  rfl

/-- A truth value that is written is read back into the field for it. -/
theorem member_processable (h : f.processable = none) (level : Nat) (processable : Bool)
    (rest : List Char) :
    Fields.member size depth child f "processable"
        (':' :: (sp.colon ++ (spaced sp level (.boolean processable) ++ rest))) =
      .ok ({ f with processable := some processable }, rest) := by
  rw [Fields.member, if_neg (by decide), if_neg (by decide), if_pos rfl, h, Json.field_next,
    Json.boolean_spaced sp level sp.colon_blank]
  rfl

/-- The children are read into their field by the reader of lists. -/
theorem member_children (h : f.children = none) (s : List Char) :
    Fields.member size depth child f "children" (':' :: s) =
      (Json.list size depth child s).map fun read =>
        ({ f with children := some read.1 }, read.2) := by
  rw [Fields.member, if_neg (by decide), if_neg (by decide), if_neg (by decide), if_pos rfl, h,
    Json.field_next]
  cases Json.list size depth child s <;> rfl

end

/-- A written span is read as far as its children are. -/
theorem readWithin_spaced {size depth : Nat} {child : Reader Span} (level : Nat) (s : Span)
    (rest : List Char) (hsize : 4 < size) (answer : Except Fault (List Span))
    (h : Json.list size depth child
        (sp.colon ++ (spaced sp (level + 1) (.list (toDocuments s.children)) ++
          (sp.line level ++ '\x7d' :: rest))) =
      answer.map fun children => (children, sp.line level ++ '\x7d' :: rest)) :
    readWithin size depth child (spaced sp level s.toDocument ++ rest) =
      answer.map fun children => ({ s with children }, rest) := by
  -- Four turns of the loop read the fields, and a fifth finds the end.
  obtain ⟨n, rfl⟩ : ∃ n, size = n + 5 := ⟨size - 5, by omega⟩
  have hline := sp.line_blank (level + 1)
  rw [spaced_toDocument, readWithin, Json.skipBlanks_cons (by decide)]
  simp only [Char.reduceEq, if_false, if_true]
  rw [Fields.ofRecord, Json.members_next hline (member_kind rfl s.kind _),
    Json.members_next hline (member_body rfl s.body _),
    Json.members_next hline (member_processable rfl (level + 1) s.processable _)]
  cases answer with
  | error e =>
      rw [Json.members_fault hline ((member_children rfl _).trans (congrArg _ h))]
      rfl
  | ok children =>
      rw [Json.members_next hline ((member_children rfl _).trans (congrArg _ h)),
        Json.members_end (sp.line_blank level)]
      rfl

/-! ## Reading a written tree -/

/-- A written span begins with its bracket. -/
theorem spaced_toDocument_head (level : Nat) (s : Span) (rest : List Char) :
    ∃ inside, spaced sp level s.toDocument ++ rest = '\x7b' :: inside :=
  ⟨_, spaced_toDocument sp level s rest⟩

mutual

/-- A written tree is read back where its levels fit, each taking a record and a list, and refused
where they do not. -/
theorem read_spaced (size depth level : Nat) (s : Span) (rest : List Char)
    (hsize : (spaced sp level s.toDocument).length ≤ size) :
    read size depth (spaced sp level s.toDocument ++ rest) =
      if 2 * s.levels ≤ depth then .ok (s, rest) else .error .malformed := by
  have hfour := four_lt_length_spaced sp level s
  cases s with
  | mk kind body processable children =>
      have hlength : (spacedList sp (level + 1 + 1) true (toDocuments children)).length < _ :=
        length_spacedList_lt sp level ⟨kind, body, processable, children⟩
      match depth with
      | 0 =>
          -- The record of the span is refused.
          rw [spaced_toDocument, read, refuse, Json.skipBlanks_cons (by decide), levels,
            if_neg (by omega)]
          rfl
      | 1 =>
          -- The list of its children is refused, even if there are none.
          have hlist : Json.list size 0 refuse
              (sp.colon ++ (spaced sp (level + 1) (.list (toDocuments children)) ++
                (sp.line level ++ '\x7d' :: rest))) = .error .malformed := by
            rw [spaced, List.cons_append, Json.list_open _ _ _ sp.colon_blank, if_pos rfl]
          rw [read, readWithin_spaced sp level _ rest (by omega) (.error .malformed) hlist, levels,
            if_neg (by omega)]
          rfl
      | depth + 2 =>
          have hcount := length_le_spacedList sp (level + 1 + 1) true children
          have hclosing :
              ∀ c ∈ (if (toDocuments children).isEmpty then [] else sp.line (level + 1)),
                Json.isBlank c = true := by
            split
            · simp
            · exact sp.line_blank (level + 1)
          have hlist : Json.list size (depth + 1) (read size depth)
              (sp.colon ++ (spaced sp (level + 1) (.list (toDocuments children)) ++
                (sp.line level ++ '\x7d' :: rest))) =
              if 2 * levelsAll children ≤ depth then
                .ok (children, sp.line level ++ '\x7d' :: rest)
              else .error .malformed := by
            rw [spaced, List.cons_append, Json.list_open _ _ _ sp.colon_blank, if_neg (by omega),
              List.append_assoc, List.append_assoc, List.singleton_append]
            exact elements_spaced size depth (level + 1 + 1) true children [] size (by omega)
              (by omega) hclosing _
          rw [read, levels]
          by_cases hfits : 2 * levelsAll children ≤ depth
          · rw [if_pos hfits] at hlist
            rw [readWithin_spaced sp level _ rest (by omega) (.ok children) hlist,
              if_pos (by omega)]
            rfl
          · rw [if_neg hfits] at hlist
            rw [readWithin_spaced sp level _ rest (by omega) (.error .malformed) hlist,
              if_neg (by omega)]
            rfl

/-- So are the trees of a written list, up to the first one that does not fit. -/
theorem elements_spaced (size depth level : Nat) (first : Bool) (ss done : List Span) (fuel : Nat)
    (hfuel : ss.length < fuel)
    (hsize : (spacedList sp level first (toDocuments ss)).length ≤ size) {blanks : List Char}
    (hblanks : ∀ c ∈ blanks, Json.isBlank c = true) (rest : List Char) :
    Json.elements (read size depth) fuel first done
        (spacedList sp level first (toDocuments ss) ++ (blanks ++ ']' :: rest)) =
      if 2 * levelsAll ss ≤ depth then .ok (done.reverse ++ ss, rest) else .error .malformed := by
  obtain ⟨n, rfl⟩ : ∃ n, fuel = n + 1 := ⟨fuel - 1, by omega⟩
  cases ss with
  | nil =>
      rw [toDocuments, spacedList, List.nil_append, Json.elements_end hblanks, levelsAll,
        if_pos (by omega), List.append_nil]
  | cons s more =>
      rw [toDocuments, spacedList] at hsize ⊢
      simp only [List.length_append, List.length_cons] at hsize hfuel
      have hread := read_spaced size depth level s
        (spacedList sp level false (toDocuments more) ++ (blanks ++ ']' :: rest)) (by omega)
      obtain ⟨inside, hinside⟩ := spaced_toDocument_head sp level s
        (spacedList sp level false (toDocuments more) ++ (blanks ++ ']' :: rest))
      simp only [List.append_assoc]
      rw [hinside] at hread ⊢
      rw [levelsAll]
      by_cases hfits : 2 * s.levels ≤ depth
      · have hmax : 2 * max s.levels (levelsAll more) ≤ depth ↔ 2 * levelsAll more ≤ depth := by
          omega
        rw [if_pos hfits] at hread
        rw [Json.elements_next (by decide) (by decide) (sp.line_blank level) hread,
          elements_spaced size depth level false more (s :: done) n (by omega) (by omega) hblanks,
          List.reverse_cons, List.append_assoc, List.singleton_append]
        simp only [hmax]
      · rw [if_neg hfits] at hread
        rw [Json.elements_fault (by decide) (by decide) (sp.line_blank level) hread,
          if_neg (by omega)]

end

/-! ## Main statement -/

/-- A document that writes a tree says the tree if it has at most 63 levels, and is refused
otherwise. -/
theorem document_spaced (s : Span) {source : String} {tail : List Char}
    (hsource : source.toList = spaced sp 0 s.toDocument ++ tail)
    (htail : ∀ c ∈ tail, Json.isBlank c = true) :
    ofString source = if s.levels ≤ 63 then .ok s else .error (.malformed none .malformed) := by
  have hread := read_spaced sp (source.toList.length + 2) Json.maxDepth 0 s tail (by
    rw [hsource, List.length_append]
    omega)
  have hlevels : 2 * s.levels ≤ Json.maxDepth ↔ s.levels ≤ 63 := by
    rw [Json.maxDepth]
    omega
  have hblank : Json.skipBlanks tail = [] := Json.skipBlanks_all htail
  simp only [hlevels, ← hsource] at hread
  rw [ofString, ofJson?, Json.document, hread]
  split
  · show Except.mapError _
      (if (Json.skipBlanks tail).isEmpty then .ok s else .error Fault.malformed) = .ok s
    rw [hblank]
    rfl
  · rfl

/-- Reading a tree from each of its written forms, the compact one, the pretty one and the one that
is printed, gives the tree if it has at most 63 levels, and never another one: deeper trees are
refused. -/
theorem ofString_written (s : Span) :
    let answer : Except TreeError Span :=
      if s.levels ≤ 63 then .ok s else .error (.malformed none .malformed)
    ofString s.toJson = answer ∧ ofString s.toPrettyJson = answer ∧
      ∀ styled file before, ofString (Command.Task.present styled file before s .json) = answer := by
  intro answer
  have hcompact : s.toJson.toList = spaced .tight 0 s.toDocument ++ [] := by
    rw [toJson, Json.Document.toList_compact, List.append_nil]
  have hpretty : s.toPrettyJson.toList = spaced .lines 0 s.toDocument :=
    Json.Document.toList_pretty s.toDocument
  refine ⟨document_spaced .tight s hcompact (by simp),
    document_spaced .lines s (by rw [hpretty, List.append_nil]) (by simp),
    fun styled file before => ?_⟩
  have hprinted : (Command.Task.present styled file before s .json).toList =
      spaced .lines 0 s.toDocument ++ ['\n'] := by
    rw [Command.Task.present, String.toList_append, hpretty]
    rfl
  exact document_spaced .lines s hprinted (by simp [Json.isBlank])

end Pinpoint.Span
