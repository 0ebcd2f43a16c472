import Pinpoint.Proofs.JsonPassing

/-!
# Values as readers take them

A reader depends on a value alone, and neither on the blanks of its spelling nor on what follows it.
`Decodes` says this of a reader, with the answer as a function of the value; which fault a refused
value has is left open. Lists and records are decoded as far as their parts are: `decodes_list` and
`toOption_members`.
-/

namespace Pinpoint.Json

open Document (comma)

variable {α σ : Type}

/-- A reader takes a value for what `decode` says, and nothing of what follows it. -/
def Decodes (reader : Reader α) (decode : Value → Option α) (v : Value) : Prop :=
  ∀ (before : Blanks) (rest : List Char),
    (reader (before.chars ++ (v.spelled ++ rest))).toOption = (decode v).map fun a => (a, rest)

/-- A reading that succeeds has its answer. -/
@[simp]
theorem toOption_ok (a : α) : (.ok a : Except Fault α).toOption = some a := rfl

/-- An answer at hand is an answer. -/
@[simp]
theorem toOption_pure (a : α) : (pure a : Except Fault α).toOption = some a := rfl

/-- A reading that fails has no answer. -/
@[simp]
theorem toOption_error (e : Fault) : (.error e : Except Fault α).toOption = none := rfl

/-- Two readings, one after the other, have an answer if both have. -/
theorem toOption_bind {β : Type} (x : Except Fault α) (f : α → Except Fault β) :
    (x >>= f).toOption = x.toOption.bind fun a => (f a).toOption := by
  cases x <;> rfl

/-- A reading with an answer succeeds with it. -/
theorem eq_ok_of_toOption {ε : Type} {x : Except ε α} {a : α} (h : x.toOption = some a) :
    x = .ok a := by
  cases x with
  | error e => cases h
  | ok b => exact congrArg _ (Option.some.inj h)

/-- What was read goes to its place in a state. -/
theorem toOption_set {x : Except Fault (α × List Char)} {a : Option α} {rest : List Char}
    (h : x.toOption = a.map fun a => (a, rest)) (set : α → σ) :
    (x >>= fun read => pure (set read.1, read.2)).toOption =
      (a.map set).map fun state => (state, rest) := by
  rw [toOption_bind, h]
  cases a <;> rfl

/-! ## Texts, truth values and choices -/

/-- The text that some letters say, as one. -/
def stringOf? (letters : List Letter) : Option String := (textOf? letters).map String.ofList

/-- A text between quotation marks is read as what its letters say. -/
theorem toOption_text (letters : List Letter) (rest : List Char) :
    (text [] (letters.flatMap Letter.spelled ++ '"' :: rest)).toOption =
      (stringOf? letters).map fun value => (value, rest) := by
  rw [toOption_text_letters, stringOf?, Option.map_map]
  rfl

/-- A number begins with a sign or a digit, and so with no other mark. -/
theorem number_head (n : Numeral) (rest : List Char) :
    ∃ c more, (Value.number n).spelled ++ rest = c :: more ∧
      ∀ d, d ≠ '-' → d.isDigit = false → c ≠ d := by
  obtain ⟨c, more, hc, hdigit⟩ := n.unsigned_head
  rw [Value.spelled, Numeral.spelled]
  split
  · exact ⟨'-', _, rfl, fun d hd _ => hd.symm⟩
  · exact ⟨c, _, by rw [hc, List.cons_append], fun d _ hd => ne_of_isDigit hdigit hd⟩

namespace Value

def string? : Value → Option String
  | text letters => stringOf? letters
  | _ => none

def boolean? : Value → Option Bool
  | boolean value => some value
  | _ => none

def isNull : Value → Bool
  | null => true
  | _ => false

/-- A choice is a name, or a record with the name as its only key and a null behind it. -/
def choice? (depth : Nat) (choices : List (String × α)) : Value → Option α
  | text letters => (stringOf? letters).bind (choices.lookup ·)
  | record [(key, value)] _ =>
    if depth = 0 then none
    else if value.inner.isNull then (stringOf? key.inner).bind (choices.lookup ·)
    else none
  | _ => none

def list? (depth : Nat) (item : Value → Option α) : Value → Option (List α)
  | list elements _ => if depth = 0 then none else elements.mapM fun e => item e.inner
  | _ => none

/-- A null is the lack of what other values say. -/
def optional? (decode : Value → Option α) : Value → Option (Option α)
  | null => some none
  | v => (decode v).map some

end Value

/-- Texts are read from values that are texts, and from no others. -/
theorem decodes_string (v : Value) : Decodes string Value.string? v := by
  intro before rest
  rw [string, Value.skipBlanks_spelled]
  cases v with
  | text letters =>
      rw [Value.spelled, quotedLetters_append]
      exact toOption_text letters rest
  | number n =>
      obtain ⟨c, more, hc, hne⟩ := number_head n rest
      rw [hc]
      simp only [if_neg (hne '"' (by decide) (by decide))]
      rfl
  | boolean value => cases value <;> rfl
  | null | list | record => rfl

/-- Truth values are read from values that are, and from no others. -/
theorem decodes_boolean (v : Value) : Decodes boolean Value.boolean? v := by
  intro before rest
  rw [boolean, Value.skipBlanks_spelled]
  cases v with
  | number n =>
      obtain ⟨c, more, hc, hne⟩ := number_head n rest
      rw [hc]
      simp only [if_neg (hne 't' (by decide) (by decide)), if_neg (hne 'f' (by decide) (by decide))]
      rfl
  | boolean value => cases value <;> rfl
  | text | null | list | record => rfl

/-- A null is read from nothing else. -/
theorem toOption_null (expected : String) (before : Blanks) (v : Value) (rest : List Char) :
    (null expected (before.chars ++ (v.spelled ++ rest))).toOption =
      if v.isNull then some rest else none := by
  rw [null, Value.skipBlanks_spelled]
  cases v with
  | number n =>
      obtain ⟨c, more, hc, hne⟩ := number_head n rest
      rw [hc]
      simp only [if_neg (hne 'n' (by decide) (by decide))]
      rfl
  | boolean value => cases value <;> rfl
  | text | null | list | record => rfl

/-- What may be null is read from null, and otherwise as its reader reads it. -/
theorem decodes_optional {item : Reader α} {decode : Value → Option α} {v : Value}
    (h : Decodes item decode v) : Decodes (optional item) (Value.optional? decode) v := by
  intro before rest
  have hitem := h .none rest
  rw [Blanks.none, List.nil_append] at hitem
  rw [optional, Value.skipBlanks_spelled]
  cases v with
  | null => rfl
  | number n =>
      obtain ⟨c, more, hc, hne⟩ := number_head n rest
      rw [hc] at hitem ⊢
      simp only [if_neg (hne 'n' (by decide) (by decide))]
      exact toOption_set hitem some
  | boolean value => cases value <;> exact toOption_set hitem some
  | text | list | record => exact toOption_set hitem some

/-- A choice is the one that stands under a name. -/
theorem toOption_choose (choices : List (String × α)) (name : String) :
    (choose choices name).toOption = choices.lookup name := by
  rw [choose]
  cases choices.lookup name <;> rfl

/-- The colon behind a key is read. -/
theorem colon_spelled (before : Blanks) (rest : List Char) :
    colon (before.chars ++ ':' :: rest) = .ok rest := by
  rw [colon, skipBlanks_before before.blank (by decide)]
  rfl

/-- A record is taken for a choice if it has one member with a null. -/
theorem toOption_choice_record {depth : Nat} (hdepth : depth ≠ 0) (choices : List (String × α))
    (before : Blanks) (members : List Member) (inside : Blanks) (rest : List Char) :
    (choice depth choices
        (before.chars ++ ((Value.record members inside).spelled ++ rest))).toOption =
      ((Value.record members inside).choice? depth choices).map fun a => (a, rest) := by
  rw [choice, Value.skipBlanks_spelled]
  simp only [Value.spelled, List.cons_append, Char.reduceEq, if_false, if_true, if_neg hdepth,
    List.append_assoc, List.nil_append]
  match members with
  | [] =>
      rw [Value.spelledRecord, List.nil_append, skipBlanks_before inside.blank (by decide)]
      rfl
  | (key, ⟨first, v, after⟩) :: more =>
      simp only [Value.spelledRecord, comma, if_true, List.nil_append, List.append_assoc,
        List.cons_append]
      rw [quotedLetters_append, skipBlanks_before key.before.blank (by decide)]
      simp only [if_true, toOption_bind, toOption_text, toOption_choose, Option.bind_map,
        Function.comp_def, colon_spelled, toOption_ok, Option.bind_some, toOption_null]
      -- The record must end behind the null: a comma there is refused.
      have hend : skipBlanks (after.chars ++ (inside.chars ++ '\x7d' :: rest)) =
          '\x7d' :: rest := by
        rw [← List.append_assoc]
        exact skipBlanks_before (after.append inside).blank (by decide) rest
      have hcomma (s : List Char) : skipBlanks (after.chars ++ ',' :: s) = ',' :: s :=
        skipBlanks_before after.blank (by decide) s
      cases hnull : v.isNull with
      | false => cases more <;> simp [Value.choice?, hnull]
      | true =>
          cases more with
          | nil =>
              rw [Value.choice?, if_neg hdepth, if_pos hnull, Option.map_bind]
              refine Option.bind_congr fun name _ => ?_
              cases hname : choices.lookup name <;> simp [Value.spelledRecord, hend, hname]
          | cons m more => simp [Value.choice?, Value.spelledRecord, comma, hcomma]

/-- Choices are read from names, and from records with a name and a null. -/
theorem decodes_choice (depth : Nat) (choices : List (String × α)) (v : Value) :
    Decodes (choice depth choices) (Value.choice? depth choices) v := by
  intro before rest
  cases v with
  | text letters =>
      rw [choice, Value.skipBlanks_spelled, Value.spelled, quotedLetters_append]
      simp only [if_true, toOption_bind, toOption_text, toOption_choose, toOption_pure,
        Value.choice?, Option.map_eq_bind, Function.comp_def, Option.bind_assoc, Option.bind_some]
  | number n =>
      obtain ⟨c, more, hc, hne⟩ := number_head n rest
      rw [choice, Value.skipBlanks_spelled, hc]
      simp only [if_neg (hne '"' (by decide) (by decide)),
        if_neg (hne '\x7b' (by decide) (by decide))]
      rfl
  | boolean value =>
      rw [choice, Value.skipBlanks_spelled]
      cases value <;> rfl
  | null | list =>
      rw [choice, Value.skipBlanks_spelled]
      rfl
  | record members inside =>
      -- A record may be a choice only where one may be opened.
      by_cases hdepth : depth = 0
      · have hnone : Value.choice? depth choices (.record members inside) = none := by
          unfold Value.choice?
          split <;> simp_all
        rw [hnone, choice, Value.skipBlanks_spelled, Value.spelled]
        simp only [List.cons_append, Char.reduceEq, if_false, if_true, if_pos hdepth]
        rfl
      · exact toOption_choice_record hdepth choices before members inside rest

/-! ## Lists -/

section

variable {item : Reader α} {decode : Value → Option α} {fuel : Nat} {first : Bool} {done : List α}

/-- Blanks before an element change nothing. -/
theorem nextElement_blanks (before : Blanks) (s : List Char) :
    nextElement first (before.chars ++ s) = nextElement first s := by
  rw [nextElement, skipBlanks_append before.blank]
  rfl

/-- Blanks before the end of a list change nothing. -/
theorem closeList_blanks (before : Blanks) (s : List Char) :
    closeList (before.chars ++ s) = closeList s := by
  rw [closeList, skipBlanks_append before.blank]
  rfl

/-- Blanks before the elements of a list change nothing. -/
theorem elements_blanks (before : Blanks) (s : List Char) :
    elements item fuel first done (before.chars ++ s) = elements item fuel first done s := by
  cases fuel with
  | zero => rfl
  | succ fuel => simp only [elements, nextElement_blanks, closeList_blanks]

/-- The next element of a list is found behind its comma. -/
theorem nextElement_spelled (first : Bool) (before : Blanks) (v : Value) (rest : List Char) :
    nextElement first (comma first ++ (before.chars ++ (v.spelled ++ rest))) =
      .ok (some (v.spelled ++ rest)) := by
  obtain ⟨c, more, hc, hblank, hend⟩ := v.spelled_head
  rw [hc]
  exact nextElement_some hblank hend first before.blank (more ++ rest)

/-- The elements of a list are decoded one by one. -/
theorem toOption_elements (es : List (Padded Value)) (h : ∀ e ∈ es, Decodes item decode e.inner)
    (hfuel : es.length < fuel) (inside : Blanks) (rest : List Char) :
    (elements item fuel first done
        (Value.spelledList first es ++ (inside.chars ++ ']' :: rest))).toOption =
      (es.mapM fun e => decode e.inner).map fun as => (done.reverse ++ as, rest) := by
  induction es generalizing fuel first done with
  | nil =>
      obtain ⟨fuel, rfl⟩ : ∃ n, fuel = n + 1 := ⟨fuel - 1, by omega⟩
      rw [Value.spelledList, List.nil_append, elements_end inside.blank]
      simp
  | cons e es ih =>
      obtain ⟨fuel, rfl⟩ : ∃ n, fuel = n + 1 := ⟨fuel - 1, by omega⟩
      obtain ⟨before, v, after⟩ := e
      rw [List.length_cons] at hfuel
      obtain ⟨hv, hes⟩ := List.forall_mem_cons.1 h
      -- The blanks before the element are gone when its reader is called, those behind it are not.
      have hitem := hv .none (after.chars ++
        (Value.spelledList false es ++ (inside.chars ++ ']' :: rest)))
      rw [Blanks.none, List.nil_append] at hitem
      simp only [Value.spelledList, List.append_assoc, elements, nextElement_spelled,
        toOption_bind, toOption_ok, Option.bind_some, hitem, List.mapM_cons]
      cases decode v with
      | none => rfl
      | some a =>
          simp only [Option.map_some, Option.bind_some, elements_blanks]
          rw [ih hes (by omega), List.reverse_cons]
          cases es.mapM fun e => decode e.inner <;> simp

/-- Lists are read from values that are lists, if their elements are read. -/
theorem decodes_list {size : Nat} (depth : Nat) {v : Value} (hsize : v.spelled.length ≤ size)
    (h : ∀ w : Value, w.spelled.length ≤ size → Decodes item decode w) :
    Decodes (list size depth item) (Value.list? depth decode) v := by
  intro before rest
  cases v with
  | list es inside =>
      simp only [Value.spelled, List.length_cons, List.length_append] at hsize
      -- The elements are shorter than the list, and there are fewer of them than it is long.
      have hes : ∀ e ∈ es, Decodes item decode e.inner := fun e he =>
        h e.inner (by have := Value.length_spelled_le_spelledList true he; omega)
      have hfuel : es.length < size := by
        have := Value.length_le_spelledList true es
        omega
      rw [Value.spelled, List.cons_append, list_open size depth item before.blank, Value.list?]
      split
      · rfl
      · rw [List.append_assoc, List.append_assoc, List.singleton_append,
          toOption_elements es hes hfuel]
        rfl
  | number n =>
      obtain ⟨c, more, hc, hne⟩ := number_head n rest
      rw [list, Value.skipBlanks_spelled, hc]
      simp only [if_neg (hne '[' (by decide) (by decide))]
      rfl
  | boolean value =>
      rw [list, Value.skipBlanks_spelled]
      cases value <;> rfl
  | null | text | record =>
      rw [list, Value.skipBlanks_spelled]
      rfl

end

/-! ## Records -/

/-- The key of a member, if its letters say a text. -/
def Member.key? (m : Member) : Option String := stringOf? m.1.inner

/-- Gives a member to a state, by its key. -/
def Member.assigned (assign : σ → String → Value → Option σ) (state : σ) (m : Member) : Option σ :=
  (Member.key? m).bind fun key => assign state key m.2.inner

section

variable {member : σ → String → Reader σ} {assign : σ → String → Value → Option σ} {fuel : Nat}
  {first : Bool} {state : σ}

/-- Blanks before a key change nothing. -/
theorem nextKey_blanks (before : Blanks) (s : List Char) :
    nextKey first (before.chars ++ s) = nextKey first s := by
  rw [nextKey, skipBlanks_append before.blank]
  rfl

/-- Blanks before the members of a record change nothing. -/
theorem members_blanks (before : Blanks) (s : List Char) :
    members member fuel first state (before.chars ++ s) = members member fuel first state s := by
  cases fuel with
  | zero => rfl
  | succ fuel => simp only [members, nextKey_blanks]

/-- The next key of a record is read as what its letters say. -/
theorem toOption_nextKey (first : Bool) (m : Member) (rest : List Char) :
    (nextKey first (comma first ++
        (m.1.before.chars ++ (quotedLetters m.1.inner ++ rest)))).toOption =
      (Member.key? m).map fun key => (some key, rest) := by
  have hkey : skipBlanks (m.1.before.chars ++ (quotedLetters m.1.inner ++ rest)) =
      '"' :: (m.1.inner.flatMap Letter.spelled ++ '"' :: rest) := by
    rw [quotedLetters_append, skipBlanks_before m.1.before.blank (by decide)]
  have hread : (text [] (m.1.inner.flatMap Letter.spelled ++ '"' :: rest) >>= fun read =>
      pure (some read.1, read.2)).toOption = (Member.key? m).map fun key => (some key, rest) := by
    rw [toOption_bind, toOption_text, Member.key?]
    cases stringOf? m.1.inner <;> rfl
  rw [nextKey]
  cases first with
  | true =>
      rw [comma, if_pos rfl, List.nil_append, hkey]
      exact hread
  | false =>
      rw [comma, if_neg (by simp), List.singleton_append, skipBlanks_cons (by decide)]
      simp only [Char.reduceEq, Bool.false_eq_true, if_false, if_true, hkey]
      exact hread

/-- The members of a record are given to the state one by one. -/
theorem toOption_members (ms : List Member)
    (h : ∀ m ∈ ms, ∀ state key rest, Ends rest →
      (member state key (m.1.after.chars ++ ':' :: (m.2.before.chars ++
        (m.2.inner.spelled ++ rest)))).toOption =
      (assign state key m.2.inner).map fun state => (state, rest))
    (hfuel : ms.length < fuel) (inside : Blanks) (rest : List Char) :
    (members member fuel first state
        (Value.spelledRecord first ms ++ (inside.chars ++ '\x7d' :: rest))).toOption =
      (ms.foldlM (Member.assigned assign) state).map fun state => (state, rest) := by
  induction ms generalizing fuel first state with
  | nil =>
      obtain ⟨fuel, rfl⟩ : ∃ n, fuel = n + 1 := ⟨fuel - 1, by omega⟩
      rw [Value.spelledRecord, List.nil_append, members_end inside.blank]
      rfl
  | cons m ms ih =>
      obtain ⟨fuel, rfl⟩ : ∃ n, fuel = n + 1 := ⟨fuel - 1, by omega⟩
      obtain ⟨hm, hms⟩ := List.forall_mem_cons.1 h
      obtain ⟨key, before, v, after⟩ := m
      rw [List.length_cons] at hfuel
      have hkey := toOption_nextKey first (key, ⟨before, v, after⟩)
      simp only [Value.spelledRecord, List.append_assoc, List.cons_append, members,
        toOption_bind, hkey, List.foldlM_cons, Member.assigned]
      cases Member.key? (key, ⟨before, v, after⟩) with
      | none => rfl
      | some name =>
          have hmember := hm state name _ (ends_spelledRecord after inside ms rest)
          simp only [Option.map_some, Option.bind_some, toOption_bind, hmember]
          cases assign state name v with
          | none => rfl
          | some state =>
              simp only [Option.map_some, Option.bind_some, members_blanks]
              exact ih hms (by omega)

/-- A field is taken once. -/
def once (before read : Option α) : Option (Option α) :=
  if before.isSome then none else read.map some

/-- A field is read from its value, unless it was read before. -/
theorem toOption_field {reader : Reader α} {decode : Value → Option α} {v : Value}
    (h : Decodes reader decode v) (name : String) (before : Option α) (after first : Blanks)
    (rest : List Char) :
    (field name before reader
        (after.chars ++ ':' :: (first.chars ++ (v.spelled ++ rest)))).toOption =
      (once before (decode v)).map fun a => (a, rest) := by
  rw [field, once]
  split
  · rfl
  · simp only [toOption_bind, colon_spelled, toOption_ok, Option.bind_some, h first rest]
    cases decode v <;> rfl

end

/-! ## Lists of fields -/

/-- A field of a list is missing where the list ends. -/
theorem slot_end (reader : Reader α) (first : Bool) (before : Blanks) (rest : List Char) :
    slot first reader (before.chars ++ ']' :: rest) = .ok (none, before.chars ++ ']' :: rest) := by
  rw [slot, nextElement_none first before.blank]
  rfl

/-- A field of a list is read from the value at its place. -/
theorem toOption_slot {reader : Reader α} {decode : Value → Option α} {v : Value}
    (h : Decodes reader decode v) (first : Bool) (after before : Blanks) (rest : List Char) :
    (slot first reader
        (after.chars ++ (comma first ++ (before.chars ++ (v.spelled ++ rest))))).toOption =
      (decode v).map fun a => (some a, rest) := by
  have hitem := h .none rest
  rw [Blanks.none, List.nil_append] at hitem
  rw [slot, nextElement_blanks, nextElement_spelled]
  simp only [toOption_bind, toOption_ok, Option.bind_some, hitem]
  cases decode v <;> rfl

end Pinpoint.Json
