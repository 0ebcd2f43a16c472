import Mathlib.Data.List.TakeDrop
import Pinpoint.Proofs.JsonValues

/-!
# Values that are passed over

A value that no reader wants is passed over whatever it is, however deep it nests. The frames that
passing has entered are left one by one: `passValue_spelled` finds that behind a value the same
frames are still to be left, and that each step took a character at least.
-/

namespace Pinpoint.Json

open Document (comma)

/-! ## Numbers -/

/-- A number may go on with this character. -/
def goesOn (c : Char) : Bool := c.isDigit || c == '.' || c == 'e' || c == 'E'

/-- What follows does not go on with a number. -/
def Ends (s : List Char) : Prop := ∀ c ∈ s.head?, goesOn c = false

/-- A character with which no number goes on ends the value before it. -/
theorem Ends.cons {c : Char} (h : goesOn c = false) (s : List Char) : Ends (c :: s) := by
  intro d hd
  obtain rfl := Option.some.inj hd
  exact h

/-- Blanks before an end are an end as well. -/
theorem Ends.blanks {s : List Char} (h : Ends s) (before : Blanks) : Ends (before.chars ++ s) := by
  obtain ⟨chars, hblank⟩ := before
  cases chars with
  | nil => exact h
  | cons c chars =>
      have hc := hblank c List.mem_cons_self
      simp only [isBlank, Bool.or_eq_true, beq_iff_eq] at hc
      rcases hc with ((rfl | rfl) | rfl) | rfl <;> exact Ends.cons (by decide) _

namespace Number

/-- No digit stands first. -/
def Stops (s : List Char) : Prop := ∀ c ∈ s.head?, c.isDigit = false

/-- A character that is no digit stops a row of digits. -/
theorem Stops.cons {c : Char} (h : c.isDigit = false) (s : List Char) : Stops (c :: s) := by
  intro d hd
  obtain rfl := Option.some.inj hd
  exact h

/-- What ends a value stops a row of digits. -/
theorem Stops.of_ends {s : List Char} (h : Ends s) : Stops s := by
  intro c hc
  have hends := h c hc
  simp only [goesOn, Bool.or_eq_false_iff] at hends
  exact hends.1.1.1

/-- A row of digits is taken whole, up to where it stops. -/
theorem digits_append (ds : Digits) {rest : List Char} (h : Stops rest) :
    digits (ds.chars ++ rest) = (ds.chars, rest) := by
  have htake : rest.takeWhile Char.isDigit = [] := by
    cases rest with
    | nil => rfl
    | cons c rest => rw [List.takeWhile_cons, h c rfl]; rfl
  have hdrop : rest.dropWhile Char.isDigit = rest := by
    cases rest with
    | nil => rfl
    | cons c rest => rw [List.dropWhile_cons, h c rfl]; rfl
  rw [digits, List.span_eq_takeWhile_dropWhile, List.takeWhile_append_of_pos ds.digit,
    List.dropWhile_append_of_pos ds.digit, htake, hdrop, List.append_nil]

/-- A row of digits is passed over up to where it stops. -/
theorem passDigits_append (ds : Digits) {rest : List Char} (h : Stops rest) :
    passDigits (ds.chars ++ rest) = .ok rest := by
  rw [passDigits, digits_append ds h]
  split
  · next he => exact absurd (Prod.mk.inj he).1 ds.some
  · next he => rw [(Prod.mk.inj he).2]

/-- Passes over the digits before the point. -/
def passWhole : List Char → Except Fault (List Char)
  | '0' :: c :: s => if c.isDigit then .error .malformed else .ok (c :: s)
  | s => passDigits s

/-- Passes over the digits behind the point, if there is one. -/
def passPart : List Char → Except Fault (List Char)
  | '.' :: s => passDigits s
  | s => .ok s

/-- Passes over the digits of an exponent and their sign. -/
def passPower : List Char → Except Fault (List Char)
  | '+' :: s => passDigits s
  | '-' :: s => passDigits s
  | s => passDigits s

/-- Passes over an exponent, if there is one. -/
def passExponent (s : List Char) : Except Fault (List Char) :=
  match s with
  | c :: rest => if c = 'e' ∨ c = 'E' then passPower rest else .ok s
  | [] => .ok []

/-- A number is passed over part by part. -/
theorem pass_eq (s : List Char) :
    pass s = passWhole s >>= fun s => passPart s >>= passExponent := by
  let next (s : List Char) : Except Fault (List Char) :=
    match s with
    | '.' :: s => passDigits s >>= passExponent
    | s => .ok s >>= passExponent
  have hnext : next = fun s => passPart s >>= passExponent := by
    funext s
    rw [passPart.eq_def]
    simp only [next]
    split <;> rfl
  have hpass : pass s =
      match s with
      | '0' :: c :: s => if c.isDigit then .error .malformed >>= next else .ok (c :: s) >>= next
      | s => passDigits s >>= next := rfl
  rw [hpass, hnext, passWhole.eq_def]
  split
  · split <;> rfl
  · rfl

/-- The digits before the point are passed over, whether they are a lone zero or not. -/
theorem passWhole_append (n : Numeral) {rest : List Char} (h : Stops rest) :
    passWhole (n.whole.chars ++ rest) = .ok rest := by
  have hdigits := passDigits_append n.whole h
  rw [passWhole.eq_def]
  split
  · next c s he =>
      -- A zero in front stands alone, so that the rest begins behind it.
      have hchars : n.whole.chars = ['0'] := by
        refine n.lone.resolve_right fun hhead => hhead ?_
        cases hw : n.whole.chars with
        | nil => exact absurd hw n.whole.some
        | cons d ds =>
            rw [hw, List.cons_append] at he
            rw [(List.cons.inj he).1, List.head?_cons]
      rw [hchars, List.singleton_append] at he
      obtain rfl := (List.cons.inj he).2
      rw [h c rfl, if_neg (by simp)]
  · exact hdigits

/-- The digits behind the point are passed over, if there is a point at all. -/
theorem passPart_append (part : Option Digits) {rest : List Char} (h : Stops rest)
    (hpoint : ∀ c ∈ rest.head?, c ≠ '.') :
    passPart (Numeral.spelledPart part ++ rest) = .ok rest := by
  cases part with
  | some ds => exact passDigits_append ds h
  | none =>
      rw [Numeral.spelledPart, List.nil_append, passPart.eq_def]
      split
      · exact absurd rfl (hpoint '.' rfl)
      · rfl

/-- The power of an exponent is passed over with its sign. -/
theorem passPower_append (sign : Option Bool) (ds : Digits) {rest : List Char} (h : Stops rest) :
    passPower (Numeral.spelledSign sign ++ (ds.chars ++ rest)) = .ok rest := by
  have hdigits := passDigits_append ds h
  cases sign with
  | some plus => cases plus <;> exact hdigits
  | none =>
      rw [Numeral.spelledSign, List.nil_append, passPower.eq_def]
      have hfirst : ∀ c ∈ (ds.chars ++ rest).head?, c.isDigit = true := by
        cases hc : ds.chars with
        | nil => exact absurd hc ds.some
        | cons d more =>
            intro c hd
            obtain rfl := Option.some.inj hd
            exact ds.digit d (by rw [hc]; exact List.mem_cons_self)
      split
      · next he => exact absurd (hfirst '+' (by rw [he]; rfl)) (by decide)
      · next he => exact absurd (hfirst '-' (by rw [he]; rfl)) (by decide)
      · exact hdigits

/-- An exponent is passed over, if there is one. -/
theorem passExponent_append (exponent : Option (Bool × Option Bool × Digits)) {rest : List Char}
    (h : Ends rest) : passExponent (Numeral.spelledExponent exponent ++ rest) = .ok rest := by
  match exponent with
  | some (capital, sign, ds) =>
      have hpower := passPower_append sign ds (Stops.of_ends h)
      rw [← List.append_assoc] at hpower
      cases capital <;> exact hpower
  | none =>
      rw [Numeral.spelledExponent, List.nil_append]
      cases rest with
      | nil => rfl
      | cons c rest =>
          have hc := h c rfl
          simp only [goesOn, Bool.or_eq_false_iff, beq_eq_false_iff_ne] at hc
          rw [passExponent, if_neg (not_or.2 ⟨hc.1.2, hc.2⟩)]

/-- A number is passed over if what follows does not go on with it. -/
theorem pass_unsigned (n : Numeral) {rest : List Char} (h : Ends rest) :
    pass (n.unsigned ++ rest) = .ok rest := by
  -- A point and the mark of an exponent do not go on with the digits before them.
  have hexponent : Stops (Numeral.spelledExponent n.exponent ++ rest) ∧
      ∀ c ∈ (Numeral.spelledExponent n.exponent ++ rest).head?, c ≠ '.' := by
    match n.exponent with
    | none =>
        refine ⟨.of_ends h, fun c hc => ?_⟩
        rintro rfl
        exact absurd (h '.' hc) (by decide)
    | some (true, _, _) => exact ⟨.cons (by decide) _, by simp [Numeral.spelledExponent]⟩
    | some (false, _, _) => exact ⟨.cons (by decide) _, by simp [Numeral.spelledExponent]⟩
  have hpart : Stops (Numeral.spelledPart n.part ++
      (Numeral.spelledExponent n.exponent ++ rest)) := by
    match n.part with
    | none => exact hexponent.1
    | some _ => exact .cons (by decide) _
  rw [pass_eq, Numeral.unsigned, List.append_assoc, List.append_assoc, passWhole_append n hpart]
  show (passPart _ >>= passExponent) = _
  rw [passPart_append n.part hexponent.1 hexponent.2]
  exact passExponent_append n.exponent h

end Number

/-! ## Steps of passing -/

section

variable {fuel : Nat} {frames : List Frame} (before : Blanks) {rest : List Char}

/-- A key is passed over with its colon and the blanks around both. -/
theorem passKey_spelled (key : Padded (List Letter)) (rest : List Char) :
    passKey (key.before.chars ++ (quotedLetters key.inner ++ (key.after.chars ++ ':' :: rest))) =
      .ok rest := by
  have hcolon : skipBlanks (key.after.chars ++ ':' :: rest) = ':' :: rest :=
    skipBlanks_before key.after.blank (by decide) rest
  rw [passKey, quotedLetters_append, skipBlanks_before key.before.blank (by decide)]
  simp [passText_letters, hcolon, bind, Except.bind]

/-- The end of a list leaves what is outside of it to be passed over. -/
theorem passRest_list_end (rest : List Char) :
    passRest (fuel + 1) (.list :: frames) (before.chars ++ ']' :: rest) =
      passRest fuel frames rest := by
  rw [passRest, skipBlanks_before before.blank (by decide)]
  rfl

/-- A comma in a list leaves its next element to be passed over. -/
theorem passRest_list_next (s : List Char) :
    passRest (fuel + 1) (.list :: frames) (before.chars ++ ',' :: s) =
      passValue fuel (.list :: frames) s := by
  rw [passRest, skipBlanks_before before.blank (by decide)]
  rfl

/-- The end of a record leaves what is outside of it to be passed over. -/
theorem passRest_record_end (rest : List Char) :
    passRest (fuel + 1) (.record :: frames) (before.chars ++ '\x7d' :: rest) =
      passRest fuel frames rest := by
  rw [passRest, skipBlanks_before before.blank (by decide)]
  rfl

/-- A comma in a record leaves its next value to be passed over, behind the key. -/
theorem passRest_record_next (key : Padded (List Letter)) (s : List Char) :
    passRest (fuel + 1) (.record :: frames) (before.chars ++ ',' ::
        (key.before.chars ++ (quotedLetters key.inner ++ (key.after.chars ++ ':' :: s)))) =
      passValue fuel (.record :: frames) s := by
  rw [passRest, skipBlanks_before before.blank (by decide)]
  simp [passKey_spelled, bind, Except.bind]

/-- An empty list is passed over at once. -/
theorem passValue_list_end (inside : Blanks) (rest : List Char) :
    passValue (fuel + 1) frames (before.chars ++ '[' :: (inside.chars ++ ']' :: rest)) =
      passRest fuel frames rest := by
  rw [passValue, skipBlanks_before before.blank (by decide)]
  simp [skipBlanks_before inside.blank (show isBlank ']' = false by decide),
    show '['.isDigit = false by decide]

/-- A list that is opened leaves its first element to be passed over. -/
theorem passValue_list_first (first : Blanks) (v : Value) (rest : List Char) :
    passValue (fuel + 1) frames (before.chars ++ '[' :: (first.chars ++ (v.spelled ++ rest))) =
      passValue fuel (.list :: frames) (v.spelled ++ rest) := by
  obtain ⟨c, more, hc, -, hend⟩ := v.spelled_head
  have hskip := Value.skipBlanks_spelled first v rest
  rw [hc, List.cons_append] at hskip
  rw [passValue, skipBlanks_before before.blank (by decide)]
  simp [hc, hskip, hend, show '['.isDigit = false by decide]

/-- An empty record is passed over at once. -/
theorem passValue_record_end (inside : Blanks) (rest : List Char) :
    passValue (fuel + 1) frames (before.chars ++ '\x7b' :: (inside.chars ++ '\x7d' :: rest)) =
      passRest fuel frames rest := by
  rw [passValue, skipBlanks_before before.blank (by decide)]
  simp [skipBlanks_before inside.blank (show isBlank '\x7d' = false by decide),
    show '\x7b'.isDigit = false by decide]

/-- A record that is opened leaves its first value to be passed over, behind the key. -/
theorem passValue_record_first (key : Padded (List Letter)) (s : List Char) :
    passValue (fuel + 1) frames (before.chars ++ '\x7b' ::
        (key.before.chars ++ (quotedLetters key.inner ++ (key.after.chars ++ ':' :: s)))) =
      passValue fuel (.record :: frames) s := by
  have hkey := passKey_spelled ⟨.none, key.inner, key.after⟩ s
  rw [Blanks.none, List.nil_append, quotedLetters_append] at hkey
  have hquote : isBlank '"' = false := by decide
  rw [passValue, skipBlanks_before before.blank (by decide), quotedLetters_append]
  simp [skipBlanks_before key.before.blank hquote, hkey, bind, Except.bind,
    show '\x7b'.isDigit = false by decide]

/-- A null is passed over. -/
theorem passValue_null (rest : List Char) :
    passValue (fuel + 1) frames (before.chars ++ (Value.null.spelled ++ rest)) =
      passRest fuel frames rest := by
  rw [passValue, Value.skipBlanks_spelled]
  rfl

/-- A truth value is passed over. -/
theorem passValue_boolean (value : Bool) (rest : List Char) :
    passValue (fuel + 1) frames (before.chars ++ ((Value.boolean value).spelled ++ rest)) =
      passRest fuel frames rest := by
  rw [passValue, Value.skipBlanks_spelled]
  cases value <;> rfl

/-- A text is passed over, also where its surrogates stand alone. -/
theorem passValue_text (letters : List Letter) (rest : List Char) :
    passValue (fuel + 1) frames (before.chars ++ ((Value.text letters).spelled ++ rest)) =
      passRest fuel frames rest := by
  rw [passValue, Value.skipBlanks_spelled, Value.spelled, quotedLetters_append]
  simp [passText_letters, bind, Except.bind, show '"'.isDigit = false by decide]

/-- A number is passed over if what follows ends it. -/
theorem passValue_number (n : Numeral) (h : Ends rest) :
    passValue (fuel + 1) frames (before.chars ++ ((Value.number n).spelled ++ rest)) =
      passRest fuel frames rest := by
  have hpass := Number.pass_unsigned n h
  rw [passValue, Value.skipBlanks_spelled, Value.spelled, Numeral.spelled]
  cases n.negative with
  | true => simp [hpass, bind, Except.bind]
  | false =>
      obtain ⟨c, more, hc, hdigit⟩ := n.unsigned_head
      rw [hc, List.cons_append] at hpass
      simp [hc, hdigit, hpass, ne_of_isDigit hdigit, bind, Except.bind]

end

/-! ## Passing over a value -/

/-- What is left of a list ends the element before it. -/
theorem ends_spelledList (after inside : Blanks) (elements : List (Padded Value))
    (rest : List Char) :
    Ends (after.chars ++ (Value.spelledList false elements ++ (inside.chars ++ ']' :: rest))) := by
  refine Ends.blanks ?_ after
  cases elements with
  | nil => exact Ends.blanks (.cons (by decide) _) inside
  | cons e more => exact .cons (by decide) _

/-- What is left of a record ends the member before it. -/
theorem ends_spelledRecord (after inside : Blanks) (members : List Member) (rest : List Char) :
    Ends (after.chars ++
      (Value.spelledRecord false members ++ (inside.chars ++ '\x7d' :: rest))) := by
  refine Ends.blanks ?_ after
  cases members with
  | nil => exact Ends.blanks (.cons (by decide) _) inside
  | cons m more => exact .cons (by decide) _

mutual

/-- Passing over a value comes out behind it, inside the same frames. -/
theorem passValue_spelled (v : Value) (fuel : Nat) (frames : List Frame) (before : Blanks)
    (rest : List Char) (hends : Ends rest) (hfuel : v.spelled.length ≤ fuel) :
    ∃ left, fuel ≤ left + v.spelled.length ∧
      passValue fuel frames (before.chars ++ (v.spelled ++ rest)) = passRest left frames rest := by
  -- Each turn takes a character of the value at least, so that the turns do not run out.
  have hpos := v.length_spelled_pos
  obtain ⟨n, rfl⟩ : ∃ n, fuel = n + 1 := ⟨fuel - 1, by omega⟩
  cases v with
  | null => exact ⟨n, by omega, passValue_null before rest⟩
  | boolean value => exact ⟨n, by omega, passValue_boolean before value rest⟩
  | number m => exact ⟨n, by omega, passValue_number before m hends⟩
  | text letters => exact ⟨n, by omega, passValue_text before letters rest⟩
  | list elements inside =>
      simp only [Value.spelled, List.cons_append, List.append_assoc, List.nil_append] at hfuel ⊢
      match elements with
      | [] => exact ⟨n, by simp, passValue_list_end before inside rest⟩
      | ⟨first, v, after⟩ :: more =>
          simp only [Value.spelledList, comma, if_true, List.nil_append, List.append_assoc,
            List.length_append, List.length_cons] at hfuel ⊢
          rw [passValue_list_first]
          obtain ⟨left, hleft, hv⟩ := passValue_spelled v n (.list :: frames) .none _
            (ends_spelledList after inside more rest) (by omega)
          obtain ⟨left', hleft', hmore⟩ := passRest_spelledList more left frames after inside rest
            (by omega)
          exact ⟨left', by omega, hv.trans hmore⟩
  | record members inside =>
      simp only [Value.spelled, List.cons_append, List.append_assoc, List.nil_append] at hfuel ⊢
      match members with
      | [] => exact ⟨n, by simp, passValue_record_end before inside rest⟩
      | (key, ⟨first, v, after⟩) :: more =>
          simp only [Value.spelledRecord, comma, if_true, List.nil_append, List.append_assoc,
            List.length_append, List.length_cons, List.cons_append] at hfuel ⊢
          rw [passValue_record_first]
          obtain ⟨left, hleft, hv⟩ := passValue_spelled v n (.record :: frames) first _
            (ends_spelledRecord after inside more rest) (by omega)
          obtain ⟨left', hleft', hmore⟩ := passRest_spelledRecord more left frames after inside rest
            (by omega)
          exact ⟨left', by omega, hv.trans hmore⟩

/-- Behind an element, passing comes out behind the list. -/
theorem passRest_spelledList (elements : List (Padded Value)) (fuel : Nat) (frames : List Frame)
    (after inside : Blanks) (rest : List Char)
    (hfuel : (Value.spelledList false elements).length < fuel) :
    ∃ left, fuel ≤ left + (Value.spelledList false elements).length + 1 ∧
      passRest fuel (.list :: frames)
          (after.chars ++ (Value.spelledList false elements ++ (inside.chars ++ ']' :: rest))) =
        passRest left frames rest := by
  obtain ⟨n, rfl⟩ : ∃ n, fuel = n + 1 := ⟨fuel - 1, by omega⟩
  match elements with
  | [] =>
      rw [Value.spelledList, List.nil_append, ← List.append_assoc]
      exact ⟨n, by simp, passRest_list_end (after.append inside) rest⟩
  | ⟨first, v, after'⟩ :: more =>
      simp only [Value.spelledList, comma, Bool.false_eq_true, if_false, List.nil_append,
        List.cons_append, List.append_assoc, List.length_append, List.length_cons] at hfuel ⊢
      rw [passRest_list_next]
      obtain ⟨left, hleft, hv⟩ := passValue_spelled v n (.list :: frames) first _
        (ends_spelledList after' inside more rest) (by omega)
      obtain ⟨left', hleft', hmore⟩ := passRest_spelledList more left frames after' inside rest
        (by omega)
      exact ⟨left', by omega, hv.trans hmore⟩

/-- Behind a member, passing comes out behind the record. -/
theorem passRest_spelledRecord (members : List Member) (fuel : Nat) (frames : List Frame)
    (after inside : Blanks) (rest : List Char)
    (hfuel : (Value.spelledRecord false members).length < fuel) :
    ∃ left, fuel ≤ left + (Value.spelledRecord false members).length + 1 ∧
      passRest fuel (.record :: frames)
          (after.chars ++ (Value.spelledRecord false members ++ (inside.chars ++ '\x7d' :: rest))) =
        passRest left frames rest := by
  obtain ⟨n, rfl⟩ : ∃ n, fuel = n + 1 := ⟨fuel - 1, by omega⟩
  match members with
  | [] =>
      rw [Value.spelledRecord, List.nil_append, ← List.append_assoc]
      exact ⟨n, by simp, passRest_record_end (after.append inside) rest⟩
  | (key, ⟨first, v, after'⟩) :: more =>
      simp only [Value.spelledRecord, comma, Bool.false_eq_true, if_false, List.nil_append,
        List.cons_append, List.append_assoc, List.length_append, List.length_cons] at hfuel ⊢
      rw [passRest_record_next]
      obtain ⟨left, hleft, hv⟩ := passValue_spelled v n (.record :: frames) first _
        (ends_spelledRecord after' inside more rest) (by omega)
      obtain ⟨left', hleft', hmore⟩ := passRest_spelledRecord more left frames after' inside rest
        (by omega)
      exact ⟨left', by omega, hv.trans hmore⟩

end

/-- A value is passed over, whatever it is and however deep it nests. -/
theorem pass_spelled (v : Value) {size : Nat} (before : Blanks) {rest : List Char}
    (hends : Ends rest) (hsize : v.spelled.length ≤ size) :
    pass size (before.chars ++ (v.spelled ++ rest)) = .ok rest := by
  obtain ⟨left, -, hv⟩ := passValue_spelled v size [] before rest hends hsize
  rw [pass, hv]
  cases left <;> rfl

end Pinpoint.Json
