import Mathlib.Data.List.Forall2
import Pinpoint.Proofs.JsonDecoding

/-!
# Fields by their names and by their places

Data with fields is written as a record, where a field is found by its name, or as a list, where it
is found by its place. What a record gives a field does not depend on its other fields: `given`
follows the one field through the members, and `exists_given_iff` says what has to stand there.
`Listed` follows the readers of fields down a list.
-/

namespace Pinpoint.Json

variable {α β : Type}

/-! ## Values that spell something -/

/-- Letters say a text exactly if they say its characters. -/
theorem stringOf?_eq_some_iff (letters : List Letter) (text : String) :
    stringOf? letters = some text ↔ textOf? letters = some text.toList := by
  rw [stringOf?, Option.map_eq_some_iff]
  constructor
  · rintro ⟨chars, hchars, rfl⟩
    rw [hchars, String.toList_ofList]
  · intro h
    exact ⟨text.toList, h, String.ofList_toList⟩

/-- A value is a text, with its letters as they are or escaped. -/
def SpellsText (text : String) (v : Value) : Prop :=
  ∃ letters, v = .text letters ∧ textOf? letters = some text.toList

/-- A value is a name, or a record with the name as its only key and a null behind it. -/
def SpellsName (name : String) (v : Value) : Prop :=
  SpellsText name v ∨
    ∃ m inside, v = .record [m] inside ∧ Member.key? m = some name ∧ m.2.inner = .null

/-- A value is null where there is nothing, and spells what there is otherwise. -/
def SpellsOptional (spells : α → Value → Prop) : Option α → Value → Prop
  | none, v => v = .null
  | some a, v => spells a v

/-- A text is decoded from its spellings, and from no other value. -/
theorem string?_eq_some_iff (v : Value) (text : String) :
    v.string? = some text ↔ SpellsText text v := by
  cases v with
  | text letters => simp [Value.string?, SpellsText, stringOf?_eq_some_iff]
  | null | boolean | number | list | record => simp [Value.string?, SpellsText]

/-- A value is null if it says so, and only then. -/
theorem isNull_iff (v : Value) : v.isNull = true ↔ v = .null := by
  cases v <;> simp [Value.isNull]

/-- A choice is decoded from the spellings of its name, and from no other value. -/
theorem choice?_eq_some_iff {depth : Nat} (hdepth : depth ≠ 0) (choices : List (String × α))
    (v : Value) (a : α) :
    v.choice? depth choices = some a ↔
      ∃ name, choices.lookup name = some a ∧ SpellsName name v := by
  cases v with
  | text letters =>
      simp [Value.choice?, Option.bind_eq_some_iff, stringOf?_eq_some_iff, SpellsName, SpellsText,
        and_comm]
  | null | boolean | number | list => simp [Value.choice?, SpellsName, SpellsText]
  | record ms inside =>
      cases ms with
      | nil => simp [Value.choice?, SpellsName, SpellsText]
      | cons m more =>
          cases more with
          | cons => simp [Value.choice?, SpellsName, SpellsText]
          | nil =>
              obtain ⟨key, value⟩ := m
              rw [Value.choice?, if_neg hdepth]
              simp only [SpellsName, SpellsText, Member.key?]
              split
              · next hnull => simp [(isNull_iff _).1 hnull, Option.bind_eq_some_iff, and_comm]
              · next hnull => simp [mt (isNull_iff _).2 hnull]

/-- What may be null is decoded from the spellings of what there is, and from null if there is
nothing. What is there must not be spelled by null itself. -/
theorem optional?_eq_some_iff {decode : Value → Option α} {spells : α → Value → Prop}
    (h : ∀ v a, decode v = some a ↔ spells a v) (hnull : ∀ a, ¬ spells a .null) (v : Value)
    (a : Option α) : v.optional? decode = some a ↔ SpellsOptional spells a v := by
  cases v with
  | null => cases a <;> simp [Value.optional?, SpellsOptional, hnull]
  | text | boolean | number | list | record =>
      cases a <;> simp [Value.optional?, SpellsOptional, h]

/-! ## Fields of a record -/

/-- The keys of a record, as far as they say a text: a surrogate that stands alone says none. -/
def keys (ms : List Member) : List (Option String) := ms.map Member.key?

/-- What a record gives a field that has `before` already: the value of the one member with its
name, or nothing more. -/
def given (name : String) (decode : Value → Option α) (before : Option α) :
    List Member → Option (Option α)
  | [] => some before
  | m :: ms =>
    if Member.key? m = some name then
      (once before (decode m.2.inner)).bind fun read => given name decode read ms
    else given name decode before ms

/-- A record gives a field: by one member with its name, whose value spells the field, or by none
where the field may be missing. -/
structure Gives (ms : List Member) (name : String) (spelled : Value → Prop) (mayMiss : Prop) :
    Prop where
  once : (keys ms).count (some name) ≤ 1
  spelled : ∀ m ∈ ms, Member.key? m = some name → spelled m.2.inner
  missing : some name ∉ keys ms → mayMiss

section

variable {name : String} {decode : Value → Option α} {ms : List Member}

/-- The first key of a record is that of its first member. -/
theorem keys_cons (m : Member) (ms : List Member) : keys (m :: ms) = Member.key? m :: keys ms := rfl

/-- A field that has something is given nothing more. -/
theorem given_some_eq_some_iff (a : α) (read : Option α) :
    given name decode (some a) ms = some read ↔ some name ∉ keys ms ∧ read = some a := by
  induction ms with
  | nil => simp [given, keys, eq_comm]
  | cons m ms ih =>
      rw [given, keys_cons]
      split
      · next hkey => simp [once, hkey]
      · next hkey => simp [ih, Ne.symm hkey]

/-- A field without anything is given what the one member with its name says, if there is one. -/
theorem given_none_eq_some_iff (read : Option α) :
    given name decode none ms = some read ↔
      (keys ms).count (some name) ≤ 1 ∧
        (∀ m ∈ ms, Member.key? m = some name → ∃ a, decode m.2.inner = some a ∧ read = some a) ∧
          (some name ∉ keys ms → read = none) := by
  induction ms with
  | nil => simp [given, keys, eq_comm]
  | cons m ms ih =>
      rw [given, keys_cons, List.forall_mem_cons]
      split
      · next hkey =>
          -- This is the one member: the name is not a key of the others.
          have hothers (hnew : some name ∉ keys ms) (m' : Member) (hm : m' ∈ ms) :
              Member.key? m' ≠ some name := fun hname => hnew (hname ▸ List.mem_map_of_mem hm)
          have hone : (keys ms).count (some name) + 1 ≤ 1 ↔ some name ∉ keys ms := by
            rw [← List.count_eq_zero]
            omega
          rw [hkey, List.count_cons_self, hone]
          cases hdecode : decode m.2.inner with
          | none => simp [once]
          | some a =>
              rw [once, if_neg (by simp), Option.map_some, Option.bind_some,
                given_some_eq_some_iff]
              constructor
              · rintro ⟨hnew, rfl⟩
                exact ⟨hnew, ⟨fun _ => ⟨a, rfl, rfl⟩, fun m' hm hname =>
                  absurd hname (hothers hnew m' hm)⟩, fun h => absurd List.mem_cons_self h⟩
              · rintro ⟨hnew, ⟨hread, -⟩, -⟩
                obtain ⟨b, hb, rfl⟩ := hread rfl
                exact ⟨hnew, hb.symm⟩
      · next hkey => simp [ih, hkey, Ne.symm hkey]

/-- A field that is given something has its name once among the keys. -/
theorem once_of_given {read : Option α} (h : given name decode none ms = some read) :
    (keys ms).count (some name) ≤ 1 :=
  ((given_none_eq_some_iff read).1 h).1

/-- A field without a default is given what spells it. -/
theorem given_of_gives {spelled : Value → Prop} {value : α}
    (h : ∀ v, spelled v → decode v = some value) (hgives : Gives ms name spelled False) :
    given name decode none ms = some (some value) :=
  (given_none_eq_some_iff _).2 ⟨hgives.once, fun m hm hname =>
    ⟨value, h _ (hgives.spelled m hm hname), rfl⟩, fun hnew => (hgives.missing hnew).elim⟩

/-- A field with a default is given what spells it, or is missing where it is the default. -/
theorem exists_given_of_gives {spelled : Value → Prop} {value default : α}
    (h : ∀ v, spelled v → decode v = some value)
    (hgives : Gives ms name spelled (value = default)) :
    ∃ read, given name decode none ms = some read ∧ read.getD default = value := by
  by_cases hname : some name ∈ keys ms
  · exact ⟨some value, given_of_gives h ⟨hgives.once, hgives.spelled, fun hnew => hnew hname⟩, rfl⟩
  · refine ⟨none, (given_none_eq_some_iff _).2 ⟨hgives.once, fun m hm hkey => ?_,
      fun _ => rfl⟩, (hgives.missing hname).symm⟩
    exact absurd (hkey ▸ List.mem_map_of_mem hm) hname

/-- What a field is given is spelled by the one member with its name. -/
theorem gives_of_given {spelled : Value → Prop} {mayMiss : Prop} {read : Option α}
    (hread : given name decode none ms = some read)
    (h : ∀ v a, read = some a → decode v = some a → spelled v) (hmissing : read = none → mayMiss) :
    Gives ms name spelled mayMiss := by
  obtain ⟨honce, hspelled, hnone⟩ := (given_none_eq_some_iff read).1 hread
  refine ⟨honce, fun m hm hname => ?_, fun hnew => hmissing (hnone hnew)⟩
  obtain ⟨a, ha, hread⟩ := hspelled m hm hname
  exact h _ a hread ha

end

/-! ## Fields of a list -/

/-- What the place of a field in a list says. The list may end before it. -/
def slot? (decode : Value → Option α) : Option (Padded Value) → Option (Option α)
  | none => some none
  | some e => (decode e.inner).map some

/-- What is left of a list of fields. -/
def Listed (first : Bool) (es : List (Padded Value)) (rest s : List Char) : Prop :=
  ∃ after inside : Blanks,
    s = after.chars ++ (Value.spelledList first es ++ (inside.chars ++ ']' :: rest))

namespace Listed

variable {reader : Reader α} {decode : Value → Option α} {first : Bool} {es : List (Padded Value)}
  {rest s : List Char}

/-- A field is read from its place, if the list goes so far, and then what follows. -/
theorem toOption_slot_bind {i : Nat} {next : Option α × List Char → Except Fault (β × List Char)}
    {answer : Option α → Option β} (hs : Listed first (es.drop i) rest s)
    (h : ∀ e ∈ es, Decodes reader decode e.inner)
    (hnext : ∀ a s', Listed false (es.drop (i + 1)) rest s' →
      (next (a, s')).toOption = (answer a).map fun b => (b, rest)) :
    (slot first reader s >>= next).toOption =
      ((slot? decode es[i]?).bind answer).map fun b => (b, rest) := by
  obtain ⟨after, inside, rfl⟩ := hs
  have hget : es[i]? = (es.drop i).head? := List.head?_drop.symm
  have htail : es.drop (i + 1) = (es.drop i).tail := List.tail_drop.symm
  rw [htail] at hnext
  rw [hget, toOption_bind]
  cases hdrop : es.drop i with
  | nil =>
      -- The list has ended: nothing is taken off, and the next field finds the same end.
      rw [hdrop] at hnext
      rw [Value.spelledList, List.nil_append, ← List.append_assoc]
      have hend := slot_end reader first (after.append inside) rest
      rw [show after.chars ++ inside.chars = (after.append inside).chars from rfl, hend]
      exact hnext none _ ⟨after.append inside, .none, rfl⟩
  | cons e more =>
      rw [hdrop] at hnext
      have he : Decodes reader decode e.inner :=
        h e (List.mem_of_mem_drop (hdrop ▸ List.mem_cons_self))
      simp only [Value.spelledList, List.append_assoc, List.head?_cons, slot?, toOption_slot he]
      cases decode e.inner with
      | none => rfl
      | some a => exact hnext (some a) _ ⟨e.after, inside, rfl⟩

/-- The list ends behind the last field. -/
theorem closeList (hs : Listed false es rest s) :
    (Json.closeList s).toOption = if es.isEmpty then some rest else none := by
  obtain ⟨after, inside, rfl⟩ := hs
  rw [closeList_blanks]
  cases es with
  | nil =>
      rw [Value.spelledList, List.nil_append, closeList_end inside.blank]
      rfl
  | cons e es => rfl

end Listed

/-! ## Data with fields -/

/-- A record is read as far as its members are, one by one. -/
theorem toOption_record {σ : Type} {member : σ → String → Reader σ}
    {assign : σ → String → Value → Option σ} {size : Nat} {ms : List Member} {inside : Blanks}
    (h : ∀ (v : Value) (after before : Blanks) state key rest, v.spelled.length ≤ size →
      Ends rest →
      (member state key (after.chars ++ ':' :: (before.chars ++ (v.spelled ++ rest)))).toOption =
        (assign state key v).map fun state => (state, rest))
    (hsize : (Value.record ms inside).spelled.length ≤ size) (state : σ) (rest : List Char) :
    (members member size true state
        (Value.spelledRecord true ms ++ (inside.chars ++ '\x7d' :: rest))).toOption =
      (ms.foldlM (Member.assigned assign) state).map fun state => (state, rest) := by
  simp only [Value.spelled, List.length_cons, List.length_append] at hsize
  have hfuel : ms.length < size := by
    have hlength := Value.length_le_spelledRecord true ms
    omega
  refine toOption_members ms (fun m hm state key rest hends => ?_) hfuel inside rest
  have hlength := Value.length_spelled_le_spelledRecord true hm
  exact h m.2.inner m.1.after m.2.before state key rest (by omega) hends

/-- What a value says that is to be a record or a list of fields. -/
def fields? (listed : List (Padded Value) → Option α) (recorded : List Member → Option α) :
    Value → Option α
  | .list es _ => listed es
  | .record ms _ => recorded ms
  | _ => none

/-- A reader of data with fields opens a list or a record, and leaves the fields to other
readers. -/
theorem decodes_fields {reader ofList ofRecord : Reader α} {expected : String}
    {listed : List (Padded Value) → Option α} {recorded : List Member → Option α} {v : Value}
    (hreader : ∀ s, reader s =
      match skipBlanks s with
      | [] => .error .ended
      | c :: rest =>
        if c = '[' then ofList rest
        else if c = '\x7b' then ofRecord rest
        else .error (unexpected expected (c :: rest)))
    (hlist : ∀ es inside rest, v = .list es inside →
      (ofList (Value.spelledList true es ++ (inside.chars ++ ']' :: rest))).toOption =
        (listed es).map fun a => (a, rest))
    (hrecord : ∀ ms inside rest, v = .record ms inside →
      (ofRecord (Value.spelledRecord true ms ++ (inside.chars ++ '\x7d' :: rest))).toOption =
        (recorded ms).map fun a => (a, rest)) :
    Decodes reader (fields? listed recorded) v := by
  intro before rest
  rw [hreader, Value.skipBlanks_spelled]
  cases v with
  | list es inside =>
      simp only [Value.spelled, List.cons_append, List.append_assoc, List.nil_append]
      exact hlist es inside rest rfl
  | record ms inside =>
      simp only [Value.spelled, List.cons_append, List.append_assoc, List.nil_append]
      exact hrecord ms inside rest rfl
  | number n =>
      -- A number opens nothing: it begins with a sign or a digit.
      obtain ⟨c, more, hc, hne⟩ := number_head n rest
      rw [hc]
      simp only [if_neg (hne '[' (by decide) (by decide)),
        if_neg (hne '\x7b' (by decide) (by decide))]
      rfl
  | boolean value => cases value <;> rfl
  | null | text => rfl

/-- A document is a value with blanks around, and says what the value says. -/
theorem toOption_document {read : Nat → Nat → Reader α} {decode : Value → Option α}
    {source : String} (before after : Blanks) (v : Value)
    (hsource : source.toList = before.chars ++ (v.spelled ++ after.chars))
    (h : ∀ size, v.spelled.length ≤ size → Decodes (read size maxDepth) decode v) :
    (document read source).toOption = decode v := by
  have hlength : v.spelled.length ≤ source.toList.length + 2 := by
    rw [hsource, List.length_append, List.length_append]
    omega
  have hread := h _ hlength before after.chars
  rw [← hsource] at hread
  have hblank : skipBlanks after.chars = [] := skipBlanks_all after.blank
  rw [document, toOption_bind, hread]
  cases decode v with
  | none => rfl
  | some a => simp [hblank]

/-- Values are decoded one by one, each to what is at its place. -/
theorem mapM_eq_some_iff {f : α → Option β} (as : List α) (bs : List β) :
    as.mapM f = some bs ↔ List.Forall₂ (fun a b => f a = some b) as bs := by
  induction as generalizing bs with
  | nil => simp [eq_comm]
  | cons a as ih =>
      rw [List.mapM_cons, List.forall₂_cons_left_iff]
      simp only [Option.bind_eq_bind, Option.bind_eq_some_iff, ih]
      constructor
      · rintro ⟨b, hb, bs', hbs, hpure⟩
        exact ⟨b, bs', hb, hbs, (Option.some.inj hpure).symm⟩
      · rintro ⟨b, bs', hb, hbs, rfl⟩
        exact ⟨b, hb, bs', hbs, rfl⟩

/-- Where two lists are related place by place, each element of the first has its counterpart. -/
theorem exists_of_forall₂ {R : α → β → Prop} {as : List α} {bs : List β}
    (h : List.Forall₂ R as bs) {a : α} (ha : a ∈ as) : ∃ b, R a b := by
  induction h with
  | nil => exact absurd ha List.not_mem_nil
  | cons hab _ ih =>
      rcases List.mem_cons.1 ha with rfl | ha
      · exact ⟨_, hab⟩
      · exact ih ha

end Pinpoint.Json
