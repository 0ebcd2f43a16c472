import Pinpoint.Proofs.TreeDecoding
import Pinpoint.Proofs.TreeRoundTrip

/-!
# The spellings of a tree

A tree has many documents. Each of its spans may be a record, with the fields in any order, those
with a default missing and others between them, or a list of the fields, whose end may be missing
where it is default. `Spells` holds of a tree and the values that spell it in one of these ways, and
`ReadsSpan` of a document and those of its parts that are to be spans. `ofString_spellings` says
that all spellings are read alike, and that a record with a field twice or without a kind is refused
wherever it is to be a span.
-/

namespace Pinpoint.Span

open Json (Blanks Letter Member Padded SpellsText Value keys slot?)

/-- The fields of a span. -/
inductive Field where
  | kind
  | body
  | processable
  | children

namespace Field

def name : Field → String
  | kind => "kind"
  | body => "body"
  | processable => "processable"
  | children => "children"

/-- The fields in the order of a list. -/
def all : List Field := [kind, body, processable, children]

/-- A span has the default of a field. The kind has none. -/
def IsDefault (s : Span) : Field → Prop
  | kind => False
  | body => s.body = ""
  | processable => s.processable = true
  | children => s.children = []

end Field

/-- A value spells a field of a span, where `inner` says which values spell the spans inside. -/
def Field.Spelled (inner : List Value → Prop) (s : Span) : Field → Value → Prop
  | kind, v => SpellsText s.kind.name v
  | body, v => SpellsText s.body v
  | processable, v => v = .boolean s.processable
  | children, v => ∃ es inside, v = .list es inside ∧ inner (es.map Padded.inner)

/-- A record spells a span: its fields stand in any order, none of them twice, and only defaults are
missing. Members with other keys may stand anywhere and have any values. -/
structure SpelledRecord (inner : List Value → Prop) (s : Span) (ms : List Member) : Prop where
  text : ∀ m ∈ ms, (Member.key? m).isSome
  once : ∀ field : Field, (keys ms).count (some field.name) ≤ 1
  spelled : ∀ m ∈ ms, ∀ field : Field, Member.key? m = some field.name →
    field.Spelled inner s m.2.inner
  missing : ∀ field : Field, some field.name ∉ keys ms → field.IsDefault s

/-- A list spells a span: its fields stand in their order, and only defaults are missing behind
them. -/
structure SpelledList (inner : List Value → Prop) (s : Span) (es : List (Padded Value)) : Prop where
  length : es.length ≤ Field.all.length
  spelled : ∀ (i : Nat) (field : Field) (e : Padded Value), Field.all[i]? = some field →
    es[i]? = some e → field.Spelled inner s e.inner
  missing : ∀ field ∈ Field.all.drop es.length, field.IsDefault s

def SpelledWith (inner : List Value → Prop) (s : Span) : Value → Prop
  | .record ms _ => SpelledRecord inner s ms
  | .list es _ => SpelledList inner s es
  | _ => False

mutual

/-- A value spells a tree: each span is a record or a list on its own. -/
def Spells : Span → Value → Prop
  | ⟨kind, body, processable, children⟩, v =>
    SpelledWith (SpellsAll children) ⟨kind, body, processable, children⟩ v

def SpellsAll : List Span → List Value → Prop
  | [], [] => True
  | s :: ss, v :: vs => Spells s v ∧ SpellsAll ss vs
  | _, _ => False

end

/-! ## Fields that are read from their spellings -/

section

variable {inner : List Value → Prop} {s : Span} {v : Value} {depth : Nat}
  {child : Value → Option Span}

/-- The kind is decoded from what spells it. -/
theorem choice_spelled (h : Field.kind.Spelled inner s v) :
    v.choice? depth SpanKind.named = some s.kind := by
  obtain ⟨letters, rfl, hletters⟩ := h
  rw [Value.choice?, (Json.stringOf?_eq_some_iff _ _).2 hletters, Option.bind_some, lookup_name]

/-- The body is decoded from what spells it. -/
theorem string_spelled (h : Field.body.Spelled inner s v) : v.string? = some s.body :=
  (Json.string?_eq_some_iff v s.body).2 h

/-- Whether a span may be processed is decoded from what spells it. -/
theorem boolean_spelled (h : Field.processable.Spelled inner s v) :
    v.boolean? = some s.processable := by
  obtain rfl := h
  rfl

/-- A record that spells a span gives each field. -/
theorem SpelledRecord.gives {ms : List Member} (h : SpelledRecord inner s ms) (field : Field) :
    Json.Gives ms field.name (field.Spelled inner s) (field.IsDefault s) :=
  ⟨h.once field, fun m hm => h.spelled m hm field, h.missing field⟩

/-- A record says the span that it spells. -/
theorem recorded_spelled {ms : List Member} (h : SpelledRecord inner s ms)
    (hchildren : ∀ w, Field.children.Spelled inner s w → w.list? depth child = some s.children) :
    Fields.recorded? depth child ms = some s := by
  have hkind : Json.given "kind" (Value.choice? depth SpanKind.named) .none ms =
      some (some s.kind) := Json.given_of_gives (fun w => choice_spelled) (h.gives .kind)
  obtain ⟨body, hbody, hbody'⟩ := Json.exists_given_of_gives (fun w => string_spelled)
    (h.gives .body)
  obtain ⟨processable, hprocessable, hprocessable'⟩ := Json.exists_given_of_gives
    (fun w => boolean_spelled) (h.gives .processable)
  obtain ⟨children, hlist, hchildren'⟩ := Json.exists_given_of_gives hchildren
    (h.gives .children)
  have hfold := (foldlM_assign_eq_some_iff ms .none ⟨some s.kind, body, processable, children⟩).2
    ⟨h.text, hkind, hbody, hprocessable, hlist⟩
  rw [Fields.recorded?, hfold]
  cases s
  simp [Fields.toSpan, hbody', hprocessable', hchildren']

/-- A field of a list is at its place, or missing with its default. -/
theorem at_spelled {α : Type} {decode : Value → Option α} {es : List (Padded Value)}
    (h : SpelledList inner s es) (i : Nat) {field : Field} {value : α}
    (hfield : Field.all[i]? = some field)
    (hspelled : ∀ w, field.Spelled inner s w → decode w = some value) :
    slot? decode es[i]? = some (some value) ∨
      slot? decode es[i]? = some none ∧ field.IsDefault s := by
  cases he : es[i]? with
  | some e =>
      refine .inl ?_
      rw [slot?, hspelled e.inner (h.spelled i field e hfield he)]
      rfl
  | none =>
      have hlength : es.length ≤ i := List.getElem?_eq_none_iff.1 he
      have hmissing : field ∈ Field.all.drop es.length := by
        refine List.mem_of_getElem? (i := i - es.length) ?_
        rw [List.getElem?_drop, Nat.add_sub_cancel' hlength, hfield]
      exact .inr ⟨rfl, h.missing field hmissing⟩

/-- A field with a default is at its place in a list, or what the default says. -/
theorem at_spelled_getD {α : Type} {decode : Value → Option α} {es : List (Padded Value)}
    (h : SpelledList inner s es) (i : Nat) {field : Field} {value default : α}
    (hfield : Field.all[i]? = some field)
    (hspelled : ∀ w, field.Spelled inner s w → decode w = some value)
    (hdefault : field.IsDefault s → value = default) :
    ∃ a, slot? decode es[i]? = some a ∧ a.getD default = value := by
  rcases at_spelled h i hfield hspelled with hat | ⟨hat, hmissing⟩
  · exact ⟨_, hat, rfl⟩
  · exact ⟨_, hat, (hdefault hmissing).symm⟩

/-- A list says the span that it spells. -/
theorem listed_spelled {es : List (Padded Value)} (h : SpelledList inner s es)
    (hchildren : ∀ w, Field.children.Spelled inner s w → w.list? depth child = some s.children) :
    Fields.listed? depth child es = some s := by
  have hlength : es.length ≤ 4 := h.length
  have hkind : slot? (Value.choice? depth SpanKind.named) es[0]? = some (some s.kind) :=
    (at_spelled h 0 rfl fun w => choice_spelled).resolve_right fun hmissing => hmissing.2
  obtain ⟨body, hbody, hbody'⟩ := at_spelled_getD h 1 rfl (fun w => string_spelled) id
  obtain ⟨processable, hprocessable, hprocessable'⟩ :=
    at_spelled_getD h 2 rfl (fun w => boolean_spelled) id
  obtain ⟨children, hlist, hchildren'⟩ := at_spelled_getD h 3 rfl hchildren id
  rw [Fields.listed?, hkind, hbody, hprocessable, hlist]
  cases s
  simp [hlength, Fields.toSpan, hbody', hprocessable', hchildren']

/-- A value says the span that it spells, if it says the children. -/
theorem spanWithin_spelled (h : SpelledWith inner s v)
    (hchildren : ∀ w, Field.children.Spelled inner s w → w.list? depth child = some s.children) :
    spanWithin? depth child v = some s := by
  cases v with
  | record ms inside => exact recorded_spelled h hchildren
  | list es inside => exact listed_spelled h hchildren
  | null | boolean | number | text => exact h.elim

end

/-! ## Trees that are read from their spellings -/

mutual

/-- Each spelling of a tree says it, where its levels fit. -/
theorem span_spelled (s : Span) (v : Value) (depth : Nat) (h : Spells s v)
    (hdepth : 2 * s.levels ≤ depth) : span? depth v = some s := by
  cases s with
  | mk kind body processable children =>
      rw [levels] at hdepth
      obtain ⟨depth, rfl⟩ : ∃ d, depth = d + 2 := ⟨depth - 2, by omega⟩
      rw [Spells] at h
      refine spanWithin_spelled h fun w hw => ?_
      obtain ⟨es, inside, rfl, hes⟩ := hw
      rw [Value.list?, if_neg (by omega)]
      exact spans_spelled children es depth hes (by omega)

/-- Spellings of trees, one behind the other, say these trees. -/
theorem spans_spelled (ss : List Span) (es : List (Padded Value)) (depth : Nat)
    (h : SpellsAll ss (es.map Padded.inner)) (hdepth : 2 * levelsAll ss ≤ depth) :
    (es.mapM fun e => span? depth e.inner) = some ss := by
  cases ss with
  | nil =>
      cases es with
      | nil => rfl
      | cons e es => exact h.elim
  | cons s ss =>
      cases es with
      | nil => exact h.elim
      | cons e es =>
          rw [List.map_cons, SpellsAll] at h
          rw [levelsAll] at hdepth
          rw [List.mapM_cons, span_spelled s e.inner depth h.1 (by omega),
            spans_spelled ss es depth h.2 (by omega)]
          rfl

end

/-! ## Records that are refused -/

/-- The parts of a document that are to be spans: the document itself, and what stands in the list
of children of another. -/
inductive ReadsSpan (root : Value) : Value → Prop where
  | root : ReadsSpan root root
  | ofRecord {ms : List Member} {inside : Blanks} {m : Member} {es : List (Padded Value)}
      {inside' : Blanks} {e : Padded Value} :
      ReadsSpan root (.record ms inside) → m ∈ ms → Member.key? m = some Field.children.name →
      m.2.inner = .list es inside' → e ∈ es → ReadsSpan root e.inner
  | ofList {fields : List (Padded Value)} {inside : Blanks} {f : Padded Value}
      {es : List (Padded Value)} {inside' : Blanks} {e : Padded Value} :
      ReadsSpan root (.list fields inside) → fields[3]? = some f →
      f.inner = .list es inside' → e ∈ es → ReadsSpan root e.inner

section

variable {depth : Nat} {child : Value → Option Span}

/-- A record that says a span has no field twice, and has a kind. -/
theorem keys_of_recorded {ms : List Member} {s : Span}
    (h : Fields.recorded? depth child ms = some s) :
    (∀ field : Field, (keys ms).count (some field.name) ≤ 1) ∧
      some Field.kind.name ∈ keys ms := by
  obtain ⟨f, hfold, hspan⟩ := Option.bind_eq_some_iff.1 h
  obtain ⟨kind, hkind, -⟩ := Option.bind_eq_some_iff.1 hspan
  obtain ⟨-, hgiven, hbody, hprocessable, hchildren⟩ := (foldlM_assign_eq_some_iff ms _ f).1 hfold
  refine ⟨fun field => ?_, by_contra fun hmissing => ?_⟩
  · cases field with
    | kind => exact Json.once_of_given hgiven
    | body => exact Json.once_of_given hbody
    | processable => exact Json.once_of_given hprocessable
    | children => exact Json.once_of_given hchildren
  · have hnone := ((Json.given_none_eq_some_iff _).1 hgiven).2.2 hmissing
    exact absurd (hkind.symm.trans hnone) (by simp)

/-- A list that says spans says one by each element. -/
theorem child_of_list {es : List (Padded Value)} {inside : Blanks} {ss : List Span}
    (h : Value.list? depth child (.list es inside) = some ss) {e : Padded Value} (he : e ∈ es) :
    ∃ s, child e.inner = some s := by
  rw [Value.list?] at h
  split at h
  · cases h
  · exact Json.exists_of_forall₂ ((Json.mapM_eq_some_iff _ _).1 h) he

/-- A record that says a span says one by each element in its list of children. -/
theorem child_of_recorded {ms : List Member} {s : Span}
    (h : Fields.recorded? depth child ms = some s) {m : Member} (hm : m ∈ ms)
    (hkey : Member.key? m = some Field.children.name) {es : List (Padded Value)} {inside : Blanks}
    (hes : m.2.inner = .list es inside) {e : Padded Value} (he : e ∈ es) :
    ∃ t, child e.inner = some t := by
  obtain ⟨f, hfold, -⟩ := Option.bind_eq_some_iff.1 h
  obtain ⟨-, -, -, -, hchildren⟩ := (foldlM_assign_eq_some_iff ms _ f).1 hfold
  obtain ⟨_, hlist, -⟩ := ((Json.given_none_eq_some_iff _).1 hchildren).2.1 m hm hkey
  rw [hes] at hlist
  exact child_of_list hlist he

/-- A list of fields that says a span says one by each element in its list of children. -/
theorem child_of_listed {fields : List (Padded Value)} {s : Span}
    (h : Fields.listed? depth child fields = some s) {f : Padded Value}
    (hf : fields[3]? = some f) {es : List (Padded Value)} {inside : Blanks}
    (hes : f.inner = .list es inside) {e : Padded Value} (he : e ∈ es) :
    ∃ t, child e.inner = some t := by
  obtain ⟨_, -, h⟩ := Option.bind_eq_some_iff.1 h
  obtain ⟨_, -, h⟩ := Option.bind_eq_some_iff.1 h
  obtain ⟨_, -, h⟩ := Option.bind_eq_some_iff.1 h
  obtain ⟨_, -, h⟩ := Option.bind_eq_some_iff.1 h
  obtain ⟨children, hat, -⟩ := Option.bind_eq_some_iff.1 h
  rw [hf, slot?, hes] at hat
  obtain ⟨_, hlist, -⟩ := Option.map_eq_some_iff.1 hat
  exact child_of_list hlist he

end

/-- A tree that is decoded was decoded with the trees inside it. -/
theorem span_eq_some {depth : Nat} {v : Value} {s : Span} (h : span? depth v = some s) :
    ∃ inner child, spanWithin? inner child v = some s ∧
      ∀ w t, child w = some t → ∃ depth', span? depth' w = some t := by
  match depth with
  | 0 => cases h
  | 1 => exact ⟨0, _, h, fun _ _ hw => nomatch hw⟩
  | depth + 2 => exact ⟨depth + 1, span? depth, h, fun w t hw => ⟨depth, hw⟩⟩

/-- Where a document is read, so is each part of it that is to be a span. -/
theorem ReadsSpan.span_eq_some {root v : Value} (hv : ReadsSpan root v) {depth : Nat} {s : Span}
    (h : span? depth root = some s) : ∃ depth' t, span? depth' v = some t := by
  induction hv with
  | root => exact ⟨depth, s, h⟩
  | ofRecord _ hm hkey hes he ih =>
      obtain ⟨_, _, hspan⟩ := ih
      obtain ⟨_, child, hwithin, hchild⟩ := Span.span_eq_some hspan
      obtain ⟨t, ht⟩ := child_of_recorded hwithin hm hkey hes he
      obtain ⟨depth', hspan'⟩ := hchild _ t ht
      exact ⟨depth', t, hspan'⟩
  | ofList _ hf hes he ih =>
      obtain ⟨_, _, hspan⟩ := ih
      obtain ⟨_, child, hwithin, hchild⟩ := Span.span_eq_some hspan
      obtain ⟨t, ht⟩ := child_of_listed hwithin hf hes he
      obtain ⟨depth', hspan'⟩ := hchild _ t ht
      exact ⟨depth', t, hspan'⟩

/-! ## Main statement -/

/-- Every spelling of a tree of at most 63 levels is read as this tree. A document in which a record
that is to be a span has one of the fields twice, or no kind, is refused. -/
theorem ofString_spellings (source : String) (before after : Blanks) (v : Value)
    (hsource : source.toList = before.chars ++ (v.spelled ++ after.chars)) :
    (∀ s : Span, s.levels ≤ 63 → Spells s v → ofString source = .ok s) ∧
    ∀ ms inside, ReadsSpan v (.record ms inside) →
      (∃ field : Field, 2 ≤ (keys ms).count (some field.name)) ∨
        some Field.kind.name ∉ keys ms →
      ∃ e, ofString source = .error e := by
  have hread := toOption_ofString before after v hsource
  refine ⟨fun s hlevels hspells => ?_, fun ms inside hms hwrong => ?_⟩
  · -- The levels take two lists and records each, and so 126 of those that may be opened.
    rw [span_spelled s v Json.maxDepth hspells (by rw [Json.maxDepth]; omega)] at hread
    exact Json.eq_ok_of_toOption hread
  · cases hanswer : ofString source with
    | error e => exact ⟨e, rfl⟩
    | ok t =>
        rw [hanswer] at hread
        -- A document that is read has read the record as a span, which has each field once.
        obtain ⟨_, _, hspan⟩ := hms.span_eq_some hread.symm
        obtain ⟨_, _, hwithin, -⟩ := Span.span_eq_some hspan
        obtain ⟨honce, hkind⟩ := keys_of_recorded hwithin
        rcases hwrong with ⟨field, htwice⟩ | hmissing
        · have hone := honce field
          omega
        · exact absurd hkind hmissing

/-- Letters that stand for themselves. Characters that cannot are left out. -/
def plainLetters (text : String) : List Letter := text.toList.filterMap fun c =>
  if h : c ≠ '"' ∧ c ≠ '\\' ∧ ¬ c.toNat < 0x20 then some (.plain c h.1 h.2.1 h.2.2) else none

def plainText (text : String) : Value := .text (plainLetters text)

/-- A list without blanks. -/
def tightList (elements : List Value) : Value :=
  .list (elements.map fun v => ⟨.none, v, .none⟩) .none

/-- A record without blanks. -/
def tightRecord (members : List (String × Value)) : Value :=
  .record (members.map fun m => (⟨.none, plainLetters m.1, .none⟩, ⟨.none, m.2, .none⟩)) .none

/-- A code span as a list, with an escape in its body. -/
def listedCode : Value :=
  tightList [plainText "code",
    .text [.unit ⟨['0', '0', '4', '1'], rfl, List.all_eq_true.1 (by decide)⟩]]

/-- A file as a record with an unknown field, around a code span as a list. -/
def recordedFile : Value :=
  tightRecord [
    ("x", tightList [.number ⟨true, ⟨['7'], List.cons_ne_nil _ _, List.forall_mem_singleton.2 rfl⟩,
      .inr (by decide), none, none⟩, tightRecord []]),
    ("children", tightList [listedCode]), ("kind", plainText "file")]

/-- The code span is spelled by a list of its kind and its body. -/
theorem spells_listedCode : Spells (.code "A") listedCode := by
  refine ⟨by decide, fun i field e hfield he => ?_, fun field hfield => ?_⟩
  · match i, hfield, he with
    | 0, rfl, rfl => exact ⟨_, rfl, rfl⟩
    | 1, rfl, rfl => exact ⟨_, rfl, rfl⟩
  · cases field with
    | kind | body => simp [Field.all] at hfield
    | processable | children => rfl

/-- The file is spelled by a record whose fields stand out of order, with one that is unknown. -/
theorem spells_recordedFile : Spells ⟨.file, "", true, [.code "A"]⟩ recordedFile := by
  refine ⟨by decide, fun field => by cases field <;> decide, ?_, fun field hfield => ?_⟩
  · refine List.forall_mem_cons.2 ⟨fun field hkey => ?_, List.forall_mem_cons.2
      ⟨fun field hkey => ?_, List.forall_mem_singleton.2 fun field hkey => ?_⟩⟩
    · cases field <;> exact absurd hkey (by decide)
    · cases field with
      | children => exact ⟨_, _, rfl, spells_listedCode, trivial⟩
      | kind | body | processable => exact absurd hkey (by decide)
    · cases field with
      | kind => exact ⟨_, rfl, rfl⟩
      | body | processable | children => exact absurd hkey (by decide)
  · cases field with
    | body | processable => rfl
    | kind | children => exact absurd (by decide) hfield

/-- A file as a list, around a record that has its kind twice. -/
def listedTwice : Value :=
  tightList [plainText "file", plainText "", .boolean true,
    tightList [tightRecord [("kind", plainText "code"), ("kind", plainText "code")]]]

/-- A record around a list is read, and a list around a record with two kinds is refused. -/
theorem ofString_spellings_mixed :
    ofString "\x7b\"x\":[-7,\x7b\x7d],\"children\":[[\"code\",\"\\u0041\"]],\"kind\":\"file\"\x7d" =
        .ok ⟨.file, "", true, [.code "A"]⟩ ∧
      ∃ e, ofString "[\"file\",\"\",true,[\x7b\"kind\":\"code\",\"kind\":\"code\"\x7d]]" =
        .error e := by
  have hread : ReadsSpan listedTwice
      (tightRecord [("kind", plainText "code"), ("kind", plainText "code")]) :=
    .ofList .root rfl rfl (List.mem_singleton_self
      (⟨.none, tightRecord [("kind", plainText "code"), ("kind", plainText "code")], .none⟩ :
        Padded Value))
  exact ⟨(ofString_spellings _ .none .none recordedFile rfl).1 _ (by decide) spells_recordedFile,
    (ofString_spellings _ .none .none listedTwice rfl).2 _ _ hread (.inl ⟨.kind, by decide⟩)⟩

end Pinpoint.Span
