import Pinpoint.Proofs.JsonFields
import Pinpoint.Span.Load

/-!
# Trees as values say them

What tree a document says is a function of its value: `span?` takes the fields of a record in the
order of its members, and those of a list by their places. `decodes_read` follows the reader down a
value and finds that it answers just this.
-/

namespace Pinpoint.Span

open Json (Blanks Decodes Ends Listed Member Padded Reader Value given slot?)

namespace Fields

/-- Gives a value to the field of its name. A value of any other name is passed over. -/
def assign (depth : Nat) (child : Value → Option Span) (f : Fields) (key : String) (v : Value) :
    Option Fields :=
  if key = "kind" then
    (Json.once f.kind (v.choice? depth SpanKind.named)).map fun kind => { f with kind }
  else if key = "body" then
    (Json.once f.body v.string?).map fun body => { f with body }
  else if key = "processable" then
    (Json.once f.processable v.boolean?).map fun processable => { f with processable }
  else if key = "children" then
    (Json.once f.children (v.list? depth child)).map fun children => { f with children }
  else some f

/-- The span that a record says. -/
def recorded? (depth : Nat) (child : Value → Option Span) (ms : List Member) : Option Span := do
  let f ← ms.foldlM (Member.assigned (assign depth child)) none
  return f.toSpan (← f.kind)

/-- The span that a list of fields says. -/
def listed? (depth : Nat) (child : Value → Option Span) (es : List (Padded Value)) :
    Option Span := do
  let kind ← (← slot? (Value.choice? depth SpanKind.named) es[0]?)
  let body ← slot? Value.string? es[1]?
  let processable ← slot? Value.boolean? es[2]?
  let children ← slot? (Value.list? depth child) es[3]?
  if es.length ≤ 4 then return toSpan ⟨kind, body, processable, children⟩ kind else .none

end Fields

/-- The span that a value says, inside which `depth` lists and records may be opened. -/
def spanWithin? (depth : Nat) (child : Value → Option Span) : Value → Option Span :=
  Json.fields? (Fields.listed? depth child) (Fields.recorded? depth child)

/-- The span that a value says where `depth` lists and records may be opened. -/
def span? : Nat → Value → Option Span
  | 0 => fun _ => none
  | 1 => spanWithin? 0 fun _ => none
  | depth + 2 => spanWithin? (depth + 1) (span? depth)

/-! ## Records of fields -/

section

variable {size depth : Nat} {reader : Reader Span} {child : Value → Option Span}

/-- A member of a record is read as its value says, for the field that its key names. -/
theorem toOption_member
    (h : ∀ w : Value, w.spelled.length ≤ size → Decodes reader child w) (v : Value)
    (after before : Blanks) (f : Fields) (key : String) (rest : List Char)
    (hsize : v.spelled.length ≤ size) (hends : Ends rest) :
    (Fields.member size depth reader f key
        (after.chars ++ ':' :: (before.chars ++ (v.spelled ++ rest)))).toOption =
      (Fields.assign depth child f key v).map fun f => (f, rest) := by
  have hkind := Json.toOption_field (Json.decodes_choice depth SpanKind.named v) "kind" f.kind after
    before rest
  have hbody := Json.toOption_field (Json.decodes_string v) "body" f.body after before rest
  have hprocessable := Json.toOption_field (Json.decodes_boolean v) "processable" f.processable
    after before rest
  have hchildren := Json.toOption_field (Json.decodes_list depth hsize h) "children"
    f.children after before rest
  have hpass := Json.pass_spelled v before hends hsize
  rw [Fields.member, Fields.assign]
  split
  · exact Json.toOption_set hkind fun kind => { f with kind }
  split
  · exact Json.toOption_set hbody fun body => { f with body }
  split
  · exact Json.toOption_set hprocessable fun processable => { f with processable }
  split
  · exact Json.toOption_set hchildren fun children => { f with children }
  · simp only [Json.colon_spelled, hpass, bind, Except.bind]
    rfl

/-- A record is read as the span that its members say. -/
theorem toOption_ofRecord {ms : List Member} {inside : Blanks}
    (hsize : (Value.record ms inside).spelled.length ≤ size)
    (h : ∀ w : Value, w.spelled.length ≤ size → Decodes reader child w) (rest : List Char) :
    (Fields.ofRecord size depth reader
        (Value.spelledRecord true ms ++ (inside.chars ++ '\x7d' :: rest))).toOption =
      (Fields.recorded? depth child ms).map fun s => (s, rest) := by
  rw [Fields.ofRecord, Json.toOption_bind, Json.toOption_record (toOption_member h) hsize,
    Fields.recorded?]
  cases ms.foldlM (Member.assigned (Fields.assign depth child)) Fields.none with
  | none => rfl
  | some f =>
      obtain ⟨kind, body, processable, children⟩ := f
      cases kind <;> rfl

/-- The members of a record give each field on its own, and all their keys say a text. -/
theorem foldlM_assign_eq_some_iff (ms : List Member) (f f' : Fields) :
    ms.foldlM (Member.assigned (Fields.assign depth child)) f = some f' ↔
      (∀ m ∈ ms, (Member.key? m).isSome) ∧
        given "kind" (Value.choice? depth SpanKind.named) f.kind ms = some f'.kind ∧
        given "body" Value.string? f.body ms = some f'.body ∧
        given "processable" Value.boolean? f.processable ms = some f'.processable ∧
        given "children" (Value.list? depth child) f.children ms = some f'.children := by
  induction ms generalizing f with
  | nil =>
      cases f
      cases f'
      simp [given]
  | cons m ms ih =>
      -- The member gives to the one field of its name, and the other fields are as before.
      rw [List.foldlM_cons, List.forall_mem_cons, Member.assigned]
      cases hkey : Member.key? m with
      | none => simp
      | some key =>
          rw [Option.bind_some, Fields.assign]
          split
          · next hkind =>
              subst hkind
              cases hread : Json.once f.kind (m.2.inner.choice? depth SpanKind.named) <;>
                simp [given, hkey, hread, ih]
          split
          · next hbody =>
              subst hbody
              cases hread : Json.once f.body m.2.inner.string? <;> simp [given, hkey, hread, ih]
          split
          · next hprocessable =>
              subst hprocessable
              cases hread : Json.once f.processable m.2.inner.boolean? <;>
                simp [given, hkey, hread, ih]
          split
          · next hchildren =>
              subst hchildren
              cases hread : Json.once f.children (m.2.inner.list? depth child) <;>
                simp [given, hkey, hread, ih]
          · next hkind hbody hprocessable hchildren =>
              simp [given, hkey, hkind, hbody, hprocessable, hchildren, ih]
end

/-! ## Lists of fields -/

section

variable {size depth : Nat} {reader : Reader Span} {child : Value → Option Span}

/-- A list is read as the span that its elements say. -/
theorem toOption_ofList {es : List (Padded Value)} {inside : Blanks}
    (hsize : (Value.list es inside).spelled.length ≤ size)
    (h : ∀ w : Value, w.spelled.length ≤ size → Decodes reader child w) (rest : List Char) :
    (Fields.ofList size depth reader
        (Value.spelledList true es ++ (inside.chars ++ ']' :: rest))).toOption =
      (Fields.listed? depth child es).map fun s => (s, rest) := by
  simp only [Value.spelled, List.length_cons, List.length_append] at hsize
  have hchildren : ∀ e ∈ es,
      Decodes (Json.list size depth reader) (Value.list? depth child) e.inner := by
    intro e he
    have hlength := Value.length_spelled_le_spelledList true he
    exact Json.decodes_list depth (by omega) h
  have hs : Listed true (es.drop 0) rest
      (Value.spelledList true es ++ (inside.chars ++ ']' :: rest)) := ⟨.none, inside, rfl⟩
  refine hs.toOption_slot_bind (fun e _ => Json.decodes_choice depth _ e.inner) fun kind s hs => ?_
  cases kind with
  | none => rfl
  | some kind =>
      refine hs.toOption_slot_bind (fun e _ => Json.decodes_string e.inner) fun body s hs => ?_
      refine hs.toOption_slot_bind (fun e _ => Json.decodes_boolean e.inner)
        fun processable s hs => ?_
      refine hs.toOption_slot_bind hchildren fun children s hs => ?_
      rw [Json.toOption_bind, hs.closeList]
      by_cases hlength : es.length ≤ 4
      · have hend : (es.drop 4).isEmpty = true := by simpa using hlength
        rw [if_pos hend, if_pos hlength]
        rfl
      · have hmore : ¬ (es.drop 4).isEmpty = true := by simpa using hlength
        rw [if_neg hmore, if_neg hlength]
        rfl

/-! ## Spans -/

/-- A span is read from a value as the value says it, if the spans inside it are. -/
theorem decodes_readWithin {v : Value} (hsize : v.spelled.length ≤ size)
    (h : ∀ w : Value, w.spelled.length ≤ size → Decodes reader child w) :
    Decodes (readWithin size depth reader) (spanWithin? depth child) v := by
  refine Json.decodes_fields (fun s => rfl) (fun es inside rest hv => ?_)
    (fun ms inside rest hv => ?_)
  · exact toOption_ofList (hv ▸ hsize) h rest
  · exact toOption_ofRecord (hv ▸ hsize) h rest

/-- Where nothing may be opened, no value says a span. -/
theorem decodes_refuse (v : Value) : Decodes refuse (fun _ => none) v := by
  intro before rest
  obtain ⟨c, more, hc, -⟩ := v.spelled_head
  rw [refuse, Value.skipBlanks_spelled, hc, List.cons_append]
  simp only
  split <;> rfl

/-- A tree is read from a value as the value says it. -/
theorem decodes_read (size : Nat) :
    ∀ (depth : Nat) (v : Value), v.spelled.length ≤ size → Decodes (read size depth) (span? depth) v
  | 0, v, _ => decodes_refuse v
  | 1, _, hsize => decodes_readWithin hsize fun w _ => decodes_refuse w
  | depth + 2, _, hsize => decodes_readWithin hsize (decodes_read size depth)

end

/-- A document says the tree that its value says. -/
theorem toOption_ofString {source : String} (before after : Blanks) (v : Value)
    (h : source.toList = before.chars ++ (v.spelled ++ after.chars)) :
    (ofString source).toOption = span? Json.maxDepth v := by
  rw [← Json.toOption_document before after v h fun size => decodes_read size Json.maxDepth v,
    ofString, ofJson?]
  cases Json.document read source <;> rfl

end Pinpoint.Span
