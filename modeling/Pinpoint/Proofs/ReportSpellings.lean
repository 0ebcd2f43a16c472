import Pinpoint.Proofs.JsonFields
import Pinpoint.Report

/-!
# The spellings of reports

Reports have many documents. Each report may be a record, with its fields in any order and others
between them, or a list of the fields, and a message may be missing or null where there is none.
`SpellsAll` holds of reports and the values that spell them. `listOfJson?_eq_ok_iff` says that a
document is read as the reports that its value spells, and that a document which spells no reports
is refused: one with a report that has a field twice, or lacks its outcome or its description.
-/

namespace Pinpoint.Report

open Json (Blanks Decodes Ends Gives Listed Member Padded SpellsName SpellsOptional SpellsText Value
  given keys slot?)

/-! ## Spellings -/

/-- A value spells an outcome by the name that records give it. -/
def SpellsOutcome (o : Outcome) (v : Value) : Prop :=
  ∃ name, Outcome.named.lookup name = some o ∧ SpellsName name v

/-- A record spells a report: its fields stand in any order, none of them twice, and only a message
that there is not is missing. Members with other keys may stand anywhere and have any values. -/
structure SpelledRecord (r : Report) (ms : List Member) : Prop where
  text : ∀ m ∈ ms, (Member.key? m).isSome
  outcome : Gives ms "outcome" (SpellsOutcome r.outcome) False
  description : Gives ms "description" (SpellsText r.description) False
  message : Gives ms "message" (SpellsOptional SpellsText r.message) (r.message = none)

/-- A list spells a report: its fields stand in their order, and only a message that there is not is
missing behind them. -/
def SpelledList (r : Report) : List (Padded Value) → Prop
  | [outcome, description, message] =>
    SpellsOutcome r.outcome outcome.inner ∧ SpellsText r.description description.inner ∧
      SpellsOptional SpellsText r.message message.inner
  | [outcome, description] =>
    SpellsOutcome r.outcome outcome.inner ∧ SpellsText r.description description.inner ∧
      r.message = none
  | _ => False

/-- A value spells a report, as a record or as a list. -/
def Spells (r : Report) : Value → Prop
  | .record ms _ => SpelledRecord r ms
  | .list es _ => SpelledList r es
  | _ => False

/-- A value spells reports: it lists spellings of each of them in their order. -/
def SpellsAll (reports : List Report) (v : Value) : Prop :=
  ∃ es inside, v = .list es inside ∧ List.Forall₂ (fun e r => Spells r e.inner) es reports

/-! ## Reports as values say them -/

namespace Fields

/-- Gives a value to the field of its name. A value of any other name is passed over. -/
def assign (depth : Nat) (f : Fields) (key : String) (v : Value) : Option Fields :=
  if key = "outcome" then
    (Json.once f.outcome (v.choice? depth Outcome.named)).map fun outcome => { f with outcome }
  else if key = "description" then
    (Json.once f.description v.string?).map fun description => { f with description }
  else if key = "message" then
    (Json.once f.message (v.optional? Value.string?)).map fun message => { f with message }
  else some f

/-- The report that a record says. -/
def recorded? (depth : Nat) (ms : List Member) : Option Report := do
  let f ← ms.foldlM (Member.assigned (assign depth)) none
  return ⟨← f.outcome, ← f.description, f.message.join⟩

/-- The report that a list of fields says. -/
def listed? (depth : Nat) (es : List (Padded Value)) : Option Report := do
  let outcome ← (← slot? (Value.choice? depth Outcome.named) es[0]?)
  let description ← (← slot? Value.string? es[1]?)
  let message ← slot? (Value.optional? Value.string?) es[2]?
  if es.length ≤ 3 then return ⟨outcome, description, message.join⟩ else .none

end Fields

/-- The report that a value says, inside which `depth` lists and records may be opened. -/
def report? (depth : Nat) : Value → Option Report :=
  Json.fields? (Fields.listed? depth) (Fields.recorded? depth)

section

variable {size depth : Nat}

/-- A member of a record is read as its value says, for the field that its key names. -/
theorem toOption_member (v : Value) (after before : Blanks) (f : Fields) (key : String)
    (rest : List Char) (hsize : v.spelled.length ≤ size) (hends : Ends rest) :
    (Fields.member size depth f key
        (after.chars ++ ':' :: (before.chars ++ (v.spelled ++ rest)))).toOption =
      (Fields.assign depth f key v).map fun f => (f, rest) := by
  have houtcome := Json.toOption_field (Json.decodes_choice depth Outcome.named v) "outcome"
    f.outcome after before rest
  have hdescription := Json.toOption_field (Json.decodes_string v) "description" f.description
    after before rest
  have hmessage := Json.toOption_field (Json.decodes_optional (Json.decodes_string v)) "message"
    f.message after before rest
  have hpass := Json.pass_spelled v before hends hsize
  rw [Fields.member, Fields.assign]
  split
  · exact Json.toOption_set houtcome fun outcome => { f with outcome }
  split
  · exact Json.toOption_set hdescription fun description => { f with description }
  split
  · exact Json.toOption_set hmessage fun message => { f with message }
  · simp only [Json.colon_spelled, hpass, bind, Except.bind]
    rfl

/-- A record is read as the report that its members say. -/
theorem toOption_ofRecord {ms : List Member} {inside : Blanks}
    (hsize : (Value.record ms inside).spelled.length ≤ size) (rest : List Char) :
    (Fields.ofRecord size depth
        (Value.spelledRecord true ms ++ (inside.chars ++ '\x7d' :: rest))).toOption =
      (Fields.recorded? depth ms).map fun r => (r, rest) := by
  rw [Fields.ofRecord, Json.toOption_bind, Json.toOption_record toOption_member hsize,
    Fields.recorded?]
  cases ms.foldlM (Member.assigned (Fields.assign depth)) Fields.none with
  | none => rfl
  | some f =>
      obtain ⟨outcome, description, message⟩ := f
      cases outcome with
      | none => rfl
      | some outcome => cases description <;> rfl

/-- A list is read as the report that its elements say. -/
theorem toOption_ofList (es : List (Padded Value)) (inside : Blanks) (rest : List Char) :
    (Fields.ofList depth
        (Value.spelledList true es ++ (inside.chars ++ ']' :: rest))).toOption =
      (Fields.listed? depth es).map fun r => (r, rest) := by
  have hs : Listed true (es.drop 0) rest
      (Value.spelledList true es ++ (inside.chars ++ ']' :: rest)) := ⟨.none, inside, rfl⟩
  refine hs.toOption_slot_bind (fun e _ => Json.decodes_choice depth _ e.inner)
    fun outcome s hs => ?_
  cases outcome with
  | none => rfl
  | some outcome =>
      refine hs.toOption_slot_bind (fun e _ => Json.decodes_string e.inner)
        fun description s hs => ?_
      cases description with
      | none => rfl
      | some description =>
          refine hs.toOption_slot_bind
            (fun e _ => Json.decodes_optional (Json.decodes_string e.inner))
            fun message s hs => ?_
          rw [Json.toOption_bind, hs.closeList]
          by_cases hlength : es.length ≤ 3
          · have hend : (es.drop 3).isEmpty = true := by simpa using hlength
            rw [if_pos hend, if_pos hlength]
            rfl
          · have hmore : ¬ (es.drop 3).isEmpty = true := by simpa using hlength
            rw [if_neg hmore, if_neg hlength]
            rfl

/-- A report is read from a value as the value says it. -/
theorem decodes_read (v : Value) (hsize : v.spelled.length ≤ size) :
    Decodes (read size depth) (report? depth) v := by
  refine Json.decodes_fields (fun s => rfl) (fun es inside rest hv => ?_)
    (fun ms inside rest hv => ?_)
  · exact toOption_ofList es inside rest
  · exact toOption_ofRecord (hv ▸ hsize) rest

/-! ## Reports that are said by their spellings alone -/

/-- The members of a record give each field on its own, and all their keys say a text. -/
theorem foldlM_assign_eq_some_iff (ms : List Member) (f f' : Fields) :
    ms.foldlM (Member.assigned (Fields.assign depth)) f = some f' ↔
      (∀ m ∈ ms, (Member.key? m).isSome) ∧
        given "outcome" (Value.choice? depth Outcome.named) f.outcome ms = some f'.outcome ∧
        given "description" Value.string? f.description ms = some f'.description ∧
        given "message" (Value.optional? Value.string?) f.message ms = some f'.message := by
  induction ms generalizing f with
  | nil =>
      cases f
      cases f'
      simp [given]
  | cons m ms ih =>
      -- The member gives to the one field of its name, and the other fields are as before.
      rw [List.foldlM_cons, List.forall_mem_cons, Member.assigned]
      cases hkey : Member.key? m with
      | none => simp
      | some key =>
          rw [Option.bind_some, Fields.assign]
          split
          · next houtcome =>
              subst houtcome
              cases hread : Json.once f.outcome (m.2.inner.choice? depth Outcome.named) <;>
                simp [given, hkey, hread, ih]
          split
          · next hdescription =>
              subst hdescription
              cases hread : Json.once f.description m.2.inner.string? <;>
                simp [given, hkey, hread, ih]
          split
          · next hmessage =>
              subst hmessage
              cases hread : Json.once f.message (m.2.inner.optional? Value.string?) <;>
                simp [given, hkey, hread, ih]
          · next houtcome hdescription hmessage =>
              simp [given, hkey, houtcome, hdescription, hmessage, ih]

/-- A message is decoded from what spells it, and from null if there is none. -/
theorem message_eq_some_iff (v : Value) (message : Option String) :
    v.optional? Value.string? = some message ↔ SpellsOptional SpellsText message v :=
  Json.optional?_eq_some_iff Json.string?_eq_some_iff (by simp [SpellsText]) v message

/-- A record says the report that it spells, and no other. -/
theorem recorded_eq_some_iff (hdepth : depth ≠ 0) (ms : List Member) (r : Report) :
    Fields.recorded? depth ms = some r ↔ SpelledRecord r ms := by
  have houtcome (v : Value) (o : Outcome) :
      v.choice? depth Outcome.named = some o ↔ SpellsOutcome o v :=
    Json.choice?_eq_some_iff hdepth Outcome.named v o
  constructor
  · intro h
    -- What the report has, the members have given, each field on its own.
    obtain ⟨⟨_, _, message⟩, hfold, h⟩ := Option.bind_eq_some_iff.1 h
    obtain ⟨outcome, rfl, h⟩ := Option.bind_eq_some_iff.1 h
    obtain ⟨description, rfl, h⟩ := Option.bind_eq_some_iff.1 h
    obtain rfl := Option.some.inj h
    obtain ⟨htext, hgiven, hdescription, hmessage⟩ := (foldlM_assign_eq_some_iff ms _ _).1 hfold
    refine ⟨htext, ?_, ?_, ?_⟩
    · refine Json.gives_of_given hgiven (fun v a ha hv => ?_) (fun hnone => nomatch hnone)
      obtain rfl := Option.some.inj ha
      exact (houtcome v outcome).1 hv
    · refine Json.gives_of_given hdescription (fun v a ha hv => ?_) (fun hnone => nomatch hnone)
      obtain rfl := Option.some.inj ha
      exact (Json.string?_eq_some_iff v description).1 hv
    · refine Json.gives_of_given hmessage (fun v a ha hv => ?_) (fun hnone => ?_)
      · obtain rfl := ha
        exact (message_eq_some_iff v a).1 hv
      · obtain rfl := hnone
        rfl
  · rintro ⟨htext, hgiven, hdescription, hmessage⟩
    -- The members give each field what it is spelled by, so none of them is refused.
    have hgiven := Json.given_of_gives (fun v => (houtcome v r.outcome).2) hgiven
    have hdescription := Json.given_of_gives
      (fun v => (Json.string?_eq_some_iff v r.description).2) hdescription
    obtain ⟨message, hmessage, hjoin⟩ := Json.exists_given_of_gives
      (fun v => (message_eq_some_iff v r.message).2) hmessage
    have hfold := (foldlM_assign_eq_some_iff ms .none
      ⟨some r.outcome, some r.description, message⟩).2 ⟨htext, hgiven, hdescription, hmessage⟩
    have hjoin : message.join = r.message := by
      cases message <;> exact hjoin
    rw [Fields.recorded?, hfold]
    cases r
    simp [hjoin]

/-- A list says the report that it spells, and no other. -/
theorem listed_eq_some_iff (hdepth : depth ≠ 0) (es : List (Padded Value)) (r : Report) :
    Fields.listed? depth es = some r ↔ SpelledList r es := by
  have houtcome (e : Padded Value) (o : Outcome) :
      e.inner.choice? depth Outcome.named = some o ↔ SpellsOutcome o e.inner :=
    Json.choice?_eq_some_iff hdepth Outcome.named e.inner o
  match es with
  | [] | [_] => simp [Fields.listed?, slot?, SpelledList]
  | o :: d :: m :: e :: es =>
      have hlength : ¬ (o :: d :: m :: e :: es).length ≤ 3 := by
        simp only [List.length_cons]
        omega
      simp only [Fields.listed?, if_neg hlength]
      simp [SpelledList]
  | [o, d] =>
      cases r
      rw [SpelledList, ← houtcome, ← Json.string?_eq_some_iff]
      simp [Fields.listed?, slot?, Option.bind_eq_some_iff, @eq_comm _ none]
  | [o, d, m] =>
      cases r
      rw [SpelledList, ← houtcome, ← Json.string?_eq_some_iff, ← message_eq_some_iff]
      simp [Fields.listed?, slot?, Option.bind_eq_some_iff]

/-- A value says the report that it spells, and no other. -/
theorem report_eq_some_iff (hdepth : depth ≠ 0) (v : Value) (r : Report) :
    report? depth v = some r ↔ Spells r v := by
  cases v with
  | record ms inside => exact recorded_eq_some_iff hdepth ms r
  | list es inside => exact listed_eq_some_iff hdepth es r
  | null | boolean | number | text => exact ⟨fun h => (nomatch h), False.elim⟩

end

/-! ## Main statement -/

/-- A document is read as the reports that its value spells, and as no others. -/
theorem listOfJson?_eq_ok_iff (source : String) (before after : Blanks) (v : Value)
    (hsource : source.toList = before.chars ++ (v.spelled ++ after.chars))
    (reports : List Report) : listOfJson? source = .ok reports ↔ SpellsAll reports v := by
  have hread : (listOfJson? source).toOption =
      v.list? Json.maxDepth (report? (Json.maxDepth - 2)) :=
    Json.toOption_document before after v hsource fun size hsize =>
      Json.decodes_list Json.maxDepth hsize fun w hw => decodes_read w hw
  have hok : listOfJson? source = .ok reports ↔
      v.list? Json.maxDepth (report? (Json.maxDepth - 2)) = some reports := by
    rw [← hread]
    exact ⟨fun h => by rw [h]; rfl, Json.eq_ok_of_toOption⟩
  rw [hok]
  cases v with
  | list es inside =>
      have hreport (e : Padded Value) (r : Report) :
          report? (Json.maxDepth - 2) e.inner = some r ↔ Spells r e.inner :=
        report_eq_some_iff (by decide) e.inner r
      rw [Value.list?, if_neg (by decide), Json.mapM_eq_some_iff]
      simp [hreport, SpellsAll]
  | null | boolean | number | text | record => simp [Value.list?, SpellsAll]

example : listOfJson? "[[\"skip\", \"a\"], \x7b\"description\": \"b\", \"outcome\": \"fail\"\x7d]" =
    .ok [⟨.skip, "a", none⟩, ⟨.fail, "b", none⟩] := by decide +kernel

/-- A document is refused if it lists a record that has a field of a report twice, or lacks one that
every report has. -/
theorem listOfJson?_eq_error (source : String) (before after inside inside' : Blanks)
    {es : List (Padded Value)} {e : Padded Value} {ms : List Member}
    (hsource : source.toList = before.chars ++ ((Value.list es inside).spelled ++ after.chars))
    (he : e ∈ es) (hms : e.inner = .record ms inside')
    (hwrong : (∃ name ∈ ["outcome", "description", "message"], 2 ≤ (keys ms).count (some name)) ∨
      ∃ name ∈ ["outcome", "description"], some name ∉ keys ms) :
    ∃ fault, listOfJson? source = .error fault := by
  cases hanswer : listOfJson? source with
  | error fault => exact ⟨fault, rfl⟩
  | ok reports =>
      obtain ⟨_, _, hlist, hall⟩ :=
        (listOfJson?_eq_ok_iff source before after _ hsource reports).1 hanswer
      obtain ⟨rfl, -⟩ := Value.list.inj hlist
      obtain ⟨r, hspells⟩ := Json.exists_of_forall₂ hall he
      rw [hms] at hspells
      obtain ⟨-, houtcome, hdescription, hmessage⟩ := hspells
      rcases hwrong with ⟨name, hname, htwice⟩ | ⟨name, hname, hlacks⟩
      · have hones : ∀ name ∈ ["outcome", "description", "message"],
            (keys ms).count (some name) ≤ 1 := by
          simpa using ⟨houtcome.once, hdescription.once, hmessage.once⟩
        exact absurd (hones name hname) (by omega)
      · have hthere : ∀ name ∈ ["outcome", "description"], some name ∈ keys ms := by
          simpa using ⟨by_contra houtcome.missing, by_contra hdescription.missing⟩
        exact absurd (hthere name hname) hlacks

end Pinpoint.Report
