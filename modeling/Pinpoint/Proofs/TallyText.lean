import Mathlib.Data.List.Count
import Pinpoint.Outcome

/-!
# The text of a tally

The line that tells of a tally leaves counts out where they are zero, so its shape depends on them.
Nothing is lost nevertheless: `numbers_display` reads the numbers of the line back, there is another
count of them for each shape, and `display_injective` follows. A tally holds how often each outcome
was recorded (`count_ofList`), so `display_eq_iff_perm` can say that two lines are equal exactly if
the same outcomes were recorded, in whatever order. The verdict is found in the line by a letter
that stands nowhere else in it (`pass_infix_display_iff`).
-/

namespace Pinpoint

/-! ## The numbers of a text -/

/-- The numbers in a text, in order; `begun` is the one whose digits stand just before the text. -/
def numbersFrom (begun : Option Nat) : List Char → List Nat
  | [] => begun.toList
  | c :: rest =>
    if c.isDigit then numbersFrom (some (Nat.ofDigitChars 10 [c] (begun.getD 0))) rest
    else begun.toList ++ numbersFrom none rest

/-- The numbers in a text: its rows of digits. -/
def numbers (text : String) : List Nat := numbersFrom none text.toList

/-- A text has characters, and none of them is a digit. -/
def IsWord (text : String) : Prop := text.toList ≠ [] ∧ ∀ c ∈ text.toList, ¬ c.isDigit

instance (text : String) : Decidable (IsWord text) :=
  -- Only the characters of the text are tried, not all characters there are.
  @instDecidableAnd _ _ inferInstance (List.decidableBAll _ _)

/-- A word holds no numbers. -/
theorem numbersFrom_word {word : String} (hword : IsWord word) (rest : List Char) :
    numbersFrom none (word.toList ++ rest) = numbersFrom none rest := by
  have hletters := hword.2
  generalize word.toList = letters at hletters ⊢
  induction letters with
  | nil => rfl
  | cons c letters ih =>
      rw [List.cons_append, numbersFrom, if_neg (hletters c List.mem_cons_self),
        ih fun d hd => hletters d (List.mem_cons_of_mem c hd)]
      rfl

/-- Digits go on with the number begun. -/
theorem numbersFrom_digits {digits : List Char} (hdigits : ∀ c ∈ digits, c.isDigit) (begun : Nat)
    (rest : List Char) :
    numbersFrom (some begun) (digits ++ rest) =
      numbersFrom (some (Nat.ofDigitChars 10 digits begun)) rest := by
  induction digits generalizing begun with
  | nil => rfl
  | cons c digits ih =>
      rw [List.cons_append, numbersFrom, if_pos (hdigits c List.mem_cons_self),
        ih fun d hd => hdigits d (List.mem_cons_of_mem c hd)]
      rfl

/-- A number is written in digits only. -/
theorem not_mem_toString {c : Char} (hc : ¬ c.isDigit) (n : Nat) : c ∉ (toString n).toList := by
  intro hmem
  rw [Nat.toString_eq_ofList_toDigits, String.toList_ofList] at hmem
  exact hc (Nat.isDigit_of_mem_toDigits (by decide) (by decide) hmem)

/-- A number with a word behind it is read as it was written. -/
theorem numbersFrom_number (n : Nat) {word : String} (hword : IsWord word) (rest : List Char) :
    numbersFrom none ((toString n).toList ++ (word.toList ++ rest)) =
      n :: numbersFrom none rest := by
  have hdigits : ∀ d ∈ Nat.toDigits 10 n, d.isDigit := fun d hd =>
    Nat.isDigit_of_mem_toDigits (by decide) (by decide) hd
  have hvalue : Nat.ofDigitChars 10 (Nat.toDigits 10 n) 0 = n := Nat.ofDigitChars_ten_toDigits
  have hends : ∀ m, numbersFrom (some m) (word.toList ++ rest) = m :: numbersFrom none rest := by
    intro m
    have hrest := numbersFrom_word hword rest
    obtain ⟨c, letters, heq⟩ := List.exists_cons_of_ne_nil hword.1
    have hc : ¬ c.isDigit := hword.2 c (heq ▸ List.mem_cons_self)
    rw [heq, List.cons_append, numbersFrom, if_neg hc] at hrest ⊢
    exact congrArg (m :: ·) hrest
  -- A number begins with its first digit, and not with nothing read as zero.
  obtain ⟨d, digits, heq⟩ := List.exists_cons_of_ne_nil (Nat.toDigits_ne_nil (n := n) (b := 10))
  rw [heq] at hdigits hvalue
  rw [Nat.toString_eq_ofList_toDigits, String.toList_ofList, heq, List.cons_append, numbersFrom,
    if_pos (hdigits d List.mem_cons_self),
    numbersFrom_digits (fun e he => hdigits e (List.mem_cons_of_mem d he)), hends]
  exact congrArg (· :: _) hvalue

namespace Tally

/-! ## The numbers of the line -/

/-- The counts that the line of a tally tells. -/
def told (t : Tally) : List Nat :=
  [t.passed, t.executed] ++
    (if t.isSuccess && t.incomplete == 0 then [] else [t.failed, t.errored, t.incomplete]) ++
    if t.skipped = 0 then [] else [t.skipped]

/-- The detail of a tally tells of what failed, or of nothing if there is nothing to say. -/
theorem numbersFrom_detail (t : Tally) (rest : List Char) :
    numbersFrom none (t.detail.toList ++ rest) =
      (if t.isSuccess && t.incomplete == 0 then [] else [t.failed, t.errored, t.incomplete]) ++
        numbersFrom none rest := by
  unfold detail
  split
  · rfl
  · simp only [String.toList_append, List.append_assoc]
    rw [numbersFrom_word (by decide), numbersFrom_number _ (by decide),
      numbersFrom_number _ (by decide), numbersFrom_number _ (by decide)]
    rfl

/-- The numbers of the line are the counts that it tells. -/
theorem numbers_display (t : Tally) : numbers t.display = t.told := by
  have hskipped : numbersFrom none
      (if t.skipped = 0 then "" else ", " ++ toString t.skipped ++ " skipped").toList =
        if t.skipped = 0 then [] else [t.skipped] := by
    split
    · rfl
    · have hnumber : numbersFrom none
          ((toString t.skipped).toList ++ (" skipped".toList ++ [])) = [t.skipped] :=
        numbersFrom_number t.skipped (by decide) []
      rw [List.append_nil] at hnumber
      rw [String.toList_append, String.toList_append, List.append_assoc,
        numbersFrom_word (by decide), hnumber]
  have hverdict : IsWord (if t.isSuccess then " PASS" else " FAIL") := by
    split <;> decide
  simp only [numbers, display, String.toList_append, List.append_assoc]
  rw [numbersFrom_word (by decide), numbersFrom_number _ (by decide),
    numbersFrom_number _ hverdict, numbersFrom_detail, hskipped]
  rfl

/-- The tally whose line holds some numbers: there is another count of them for each shape of the
line, and what a shape leaves out is zero. -/
def ofTold? : List Nat → Option Tally
  | [passed, _] => some ⟨passed, 0, 0, 0, 0⟩
  | [passed, _, skipped] => some ⟨passed, 0, 0, skipped, 0⟩
  | [passed, _, failed, errored, incomplete] => some ⟨passed, failed, errored, 0, incomplete⟩
  | [passed, _, failed, errored, incomplete, skipped] =>
    some ⟨passed, failed, errored, skipped, incomplete⟩
  | _ => none

/-- A tally is found from the counts that it tells. -/
theorem ofTold_told (t : Tally) : ofTold? t.told = some t := by
  obtain ⟨passed, failed, errored, skipped, incomplete⟩ := t
  -- The shapes hold two, three, five and six numbers.
  unfold told
  split
  · next hquiet =>
      obtain ⟨⟨rfl, rfl⟩, rfl⟩ : (failed = 0 ∧ errored = 0) ∧ incomplete = 0 := by
        simpa [isSuccess] using hquiet
      split
      · next hskipped =>
          cases hskipped
          rfl
      · rfl
  · split
    · next hskipped =>
        cases hskipped
        rfl
    · rfl

/-- The line of a tally tells all of it. -/
theorem display_injective {s t : Tally} (h : s.display = t.display) : s = t := by
  have htold : s.told = t.told := by rw [← numbers_display, ← numbers_display, h]
  exact Option.some.inj (by rw [← ofTold_told, ← ofTold_told, htold])

/-! ## What was recorded -/

/-- How often an outcome was recorded. -/
def count (t : Tally) : Outcome → Nat
  | .pass => t.passed
  | .fail => t.failed
  | .exception => t.errored
  | .skip => t.skipped
  | .incomplete => t.incomplete

/-- Tallies that count every outcome alike are one. -/
theorem eq_of_count_eq {s t : Tally} (h : ∀ o, s.count o = t.count o) : s = t := by
  obtain ⟨passed, failed, errored, skipped, incomplete⟩ := s
  obtain ⟨_, _, _, _, _⟩ := t
  cases h .pass
  cases h .fail
  cases h .exception
  cases h .skip
  cases h .incomplete
  rfl

/-- To record an outcome is to count it once more. -/
theorem count_record (t : Tally) (recorded o : Outcome) :
    (t.record recorded).count o = t.count o + if recorded = o then 1 else 0 := by
  cases recorded <;> cases o <;> rfl

/-- To record outcomes is to count each as often as it comes. -/
theorem count_foldl (t : Tally) (outcomes : List Outcome) (o : Outcome) :
    (outcomes.foldl record t).count o = t.count o + outcomes.count o := by
  induction outcomes generalizing t with
  | nil => rfl
  | cons first rest ih =>
      rw [List.foldl_cons, ih, count_record, List.count_cons]
      simp only [beq_iff_eq]
      omega

/-- A tally counts each outcome as often as it came. -/
theorem count_ofList (outcomes : List Outcome) (o : Outcome) :
    (ofList outcomes).count o = outcomes.count o := by
  rw [ofList, count_foldl]
  cases o <;> exact Nat.zero_add _

/-- Two lists of outcomes have one tally exactly if each is the other in some order. -/
theorem ofList_eq_iff_perm (first second : List Outcome) :
    ofList first = ofList second ↔ first.Perm second := by
  rw [List.perm_iff_count]
  constructor
  · intro h o
    rw [← count_ofList, h, count_ofList]
  · intro h
    refine eq_of_count_eq fun o => ?_
    rw [count_ofList, count_ofList, h o]

/-- Each outcome that is recorded is either of a spec that ran or of one that was skipped. -/
theorem executed_add_skipped_foldl (t : Tally) (outcomes : List Outcome) :
    (outcomes.foldl record t).executed + (outcomes.foldl record t).skipped =
      t.executed + t.skipped + outcomes.length := by
  induction outcomes generalizing t with
  | nil => rfl
  | cons o rest ih =>
      have hrecord : (t.record o).executed + (t.record o).skipped = t.executed + t.skipped + 1 := by
        cases o <;> simp only [record, executed] <;> omega
      rw [List.foldl_cons, ih, hrecord, List.length_cons]
      omega

/-- Every outcome is counted as executed or as skipped. -/
theorem executed_add_skipped (outcomes : List Outcome) :
    (ofList outcomes).executed + (ofList outcomes).skipped = outcomes.length := by
  rw [ofList, executed_add_skipped_foldl]
  exact Nat.zero_add _

/-! ## The verdict -/

/-- A tally is a success behind one more outcome if it was one and the outcome fails nothing. -/
theorem isSuccess_record (t : Tally) (o : Outcome) :
    (t.record o).isSuccess = true ↔ t.isSuccess = true ∧ o ≠ .fail ∧ o ≠ .exception := by
  cases o <;> simp [isSuccess, record]

/-- A tally is a success behind more outcomes if it was one and none of them fails. -/
theorem isSuccess_foldl (t : Tally) (outcomes : List Outcome) :
    (outcomes.foldl record t).isSuccess = true ↔
      t.isSuccess = true ∧ ∀ o ∈ outcomes, o ≠ .fail ∧ o ≠ .exception := by
  induction outcomes generalizing t with
  | nil => simp
  | cons o rest ih =>
      rw [List.foldl_cons, ih, isSuccess_record, List.forall_mem_cons, and_assoc]

/-- A tally is a success exactly if nothing failed and nothing broke. -/
theorem isSuccess_ofList (outcomes : List Outcome) :
    (ofList outcomes).isSuccess = true ↔ ∀ o ∈ outcomes, o ≠ .fail ∧ o ≠ .exception := by
  rw [ofList, isSuccess_foldl]
  exact and_iff_right rfl

/-- The words between the numbers of a line, its verdict apart. -/
def words : List String :=
  ["Passed ", " of ", " (FAILURE: ", ", EXCEPTION: ", ", INCOMPLETE: ", ")", ", ", " skipped"]

/-- A character that stands neither in a number nor in these words can only stand in the verdict. -/
theorem mem_display_iff (t : Tally) {c : Char} (hdigit : ¬ c.isDigit)
    (hwords : ∀ word ∈ words, c ∉ word.toList) :
    c ∈ t.display.toList ↔ c ∈ (if t.isSuccess then " PASS" else " FAIL").toList := by
  have hnumber : ∀ n : Nat, c ∉ (toString n).toList := not_mem_toString hdigit
  simp only [words, List.forall_mem_cons] at hwords
  have hdetail : c ∉ t.detail.toList := by
    unfold detail
    split
    · exact List.not_mem_nil
    · simp only [String.toList_append, List.mem_append, hnumber, hwords, or_false,
        not_false_eq_true]
  have hskipped : c ∉
      (if t.skipped = 0 then "" else ", " ++ toString t.skipped ++ " skipped").toList := by
    split
    · exact List.not_mem_nil
    · simp only [String.toList_append, List.mem_append, hnumber, hwords, or_false,
        not_false_eq_true]
  simp only [display, String.toList_append, List.mem_append, hnumber, hwords, hdetail, hskipped,
    or_false, false_or]

/-- The line of a tally holds the word of success exactly if nothing failed. -/
theorem pass_infix_display_iff (t : Tally) :
    "PASS".toList <:+: t.display.toList ↔ t.isSuccess = true := by
  constructor
  · intro h
    -- A line that says `FAIL` holds no capital `S`.
    have hverdict := (mem_display_iff t (c := 'S') (by decide) (by decide)).1 (h.subset (by decide))
    cases hsuccess : t.isSuccess with
    | true => rfl
    | false =>
        rw [hsuccess] at hverdict
        exact absurd hverdict (by decide)
  · intro h
    refine ⟨("Passed " ++ toString t.passed ++ " of " ++ toString t.executed ++ " ").toList,
      (t.detail ++
        if t.skipped = 0 then "" else ", " ++ toString t.skipped ++ " skipped").toList, ?_⟩
    rw [display, if_pos h, show " PASS" = " " ++ "PASS" from rfl]
    simp only [String.toList_append, List.append_assoc]

/-! ## Main statement -/

/-- The lines of two tallies are equal exactly if the same outcomes were recorded, in whatever
order. Every outcome is counted as executed or as skipped, and the line says `PASS` exactly if
nothing failed and nothing broke. -/
theorem display_eq_iff_perm (first second : List Outcome) :
    ((ofList first).display = (ofList second).display ↔ first.Perm second) ∧
      (ofList first).executed + (ofList first).skipped = first.length ∧
      ("PASS".toList <:+: (ofList first).display.toList ↔ .fail ∉ first ∧ .exception ∉ first) := by
  refine ⟨?_, executed_add_skipped first, ?_⟩
  · rw [← ofList_eq_iff_perm]
    exact ⟨display_injective, congrArg display⟩
  · rw [pass_infix_display_iff, isSuccess_ofList]
    constructor
    · intro h
      exact ⟨fun hfail => (h _ hfail).1 rfl, fun hexception => (h _ hexception).2 rfl⟩
    · rintro ⟨hfail, hexception⟩ o ho
      exact ⟨fun heq => hfail (heq ▸ ho), fun heq => hexception (heq ▸ ho)⟩

end Tally

end Pinpoint
