import Pinpoint.Json.Lexeme
import Pinpoint.Json.Printer

/-!
# Documents and the blanks between their parts

A document is written in one way but for the blanks between its parts. `Spacing` says which blanks
these are, and `Document.spaced` writes a document with them, piece behind piece. The two printers
are instances: `toList_compact` and `toList_pretty`.
-/

namespace Pinpoint.Json

/-- The blanks of a written document: those before an element, a member or a closing bracket at a
level, and those behind a colon. -/
structure Spacing where
  line : Nat → List Char
  colon : List Char
  line_blank (level : Nat) : ∀ c ∈ line level, isBlank c = true
  colon_blank : ∀ c ∈ colon, isBlank c = true

namespace Spacing

/-- No blanks at all. -/
def tight : Spacing where
  line _ := []
  colon := []
  line_blank _ := by simp
  colon_blank := by simp

/-- A line for each element and member, two blanks deeper at each level. -/
def lines : Spacing where
  line level := '\n' :: List.replicate (2 * level) ' '
  colon := [' ']
  line_blank level c hc := by
    rcases List.mem_cons.1 hc with rfl | hc
    · decide
    · rw [List.eq_of_mem_replicate hc]
      decide
  colon_blank c hc := by
    rw [List.mem_singleton.1 hc]
    decide

end Spacing

/-- A text between quotation marks. -/
def quoted (value : String) : List Char := '"' :: (value.toList.flatMap writeChar ++ ['"'])

/-- A text is written between quotation marks. -/
theorem toList_writeText (value : String) : (writeText value).toList = quoted value :=
  String.toList_ofList

namespace Document

/-- What stands before an element that is not the first. -/
def comma (first : Bool) : List Char := if first then [] else [',']

mutual

/-- A document with blanks between its parts. A list or a record without content has none inside. -/
def spaced (sp : Spacing) (level : Nat) : Document → List Char
  | null => ['n', 'u', 'l', 'l']
  | boolean value => if value then ['t', 'r', 'u', 'e'] else ['f', 'a', 'l', 's', 'e']
  | text value => quoted value
  | list elements =>
    '[' :: (spacedList sp (level + 1) true elements ++
      ((if elements.isEmpty then [] else sp.line level) ++ [']']))
  | record members =>
    '\x7b' :: (spacedRecord sp (level + 1) true members ++
      ((if members.isEmpty then [] else sp.line level) ++ ['\x7d']))

def spacedList (sp : Spacing) (level : Nat) (first : Bool) : List Document → List Char
  | [] => []
  | d :: rest =>
    comma first ++ (sp.line level ++ (spaced sp level d ++ spacedList sp level false rest))

def spacedRecord (sp : Spacing) (level : Nat) (first : Bool) :
    List (String × Document) → List Char
  | [] => []
  | (key, d) :: rest =>
    comma first ++ (sp.line level ++ (quoted key ++ ':' :: (sp.colon ++
      (spaced sp level d ++ spacedRecord sp level false rest))))

end

/-! ## The printers -/

/-- A comma is written before every element but the first. -/
theorem toList_comma (done : String) (first : Bool) :
    (if first then done else done ++ ",").toList = done.toList ++ comma first := by
  cases first with
  | true => simp [comma]
  | false => simp [comma]

mutual

/-- A compact document is written without blanks. -/
theorem toList_compactOnto (done : String) (level : Nat) (d : Document) :
    (compactOnto done d).toList = done.toList ++ spaced .tight level d := by
  cases d with
  | null => simp [compactOnto, spaced]
  | boolean value => cases value <;> simp [compactOnto, spaced]
  | text value => simp [compactOnto, spaced, toList_writeText]
  | list elements =>
      simp [compactOnto, spaced, toList_compactList _ (level + 1) true elements, Spacing.tight]
  | record members =>
      simp [compactOnto, spaced, toList_compactRecord _ (level + 1) true members, Spacing.tight]

/-- The elements of a compact list are written without blanks. -/
theorem toList_compactList (done : String) (level : Nat) (first : Bool) (ds : List Document) :
    (compactList done first ds).toList = done.toList ++ spacedList .tight level first ds := by
  cases ds with
  | nil => simp [compactList, spacedList]
  | cons d rest =>
      rw [compactList, toList_compactList _ level false rest, toList_compactOnto _ level d,
        toList_comma]
      simp [spacedList, Spacing.tight]

/-- The members of a compact record are written without blanks. -/
theorem toList_compactRecord (done : String) (level : Nat) (first : Bool)
    (members : List (String × Document)) :
    (compactRecord done first members).toList =
      done.toList ++ spacedRecord .tight level first members := by
  cases members with
  | nil => simp [compactRecord, spacedRecord]
  | cons member rest =>
      obtain ⟨key, d⟩ := member
      rw [compactRecord, toList_compactRecord _ level false rest, toList_compactOnto _ level d]
      simp [spacedRecord, toList_comma, toList_writeText, Spacing.tight]

end

/-- A new line of a level begins with its blanks. -/
theorem toList_newline (done : String) (level : Nat) :
    (newline done level).toList = done.toList ++ Spacing.lines.line level := by
  simp [newline, Spacing.lines]

mutual

/-- A pretty document is written with a line for each of its parts. -/
theorem toList_prettyOnto (done : String) (level : Nat) (d : Document) :
    (prettyOnto done level d).toList = done.toList ++ spaced .lines level d := by
  cases d with
  | null => simp [prettyOnto, spaced]
  | boolean value => cases value <;> simp [prettyOnto, spaced]
  | text value => simp [prettyOnto, spaced, toList_writeText]
  | list elements =>
      cases elements with
      | nil => simp [prettyOnto, spaced, spacedList]
      | cons d rest =>
          simp [prettyOnto, spaced, toList_newline,
            toList_prettyList _ (level + 1) true (d :: rest)]
  | record members =>
      cases members with
      | nil => simp [prettyOnto, spaced, spacedRecord]
      | cons member rest =>
          simp [prettyOnto, spaced, toList_newline,
            toList_prettyRecord _ (level + 1) true (member :: rest)]

/-- The elements of a pretty list are written with a line for each. -/
theorem toList_prettyList (done : String) (level : Nat) (first : Bool) (ds : List Document) :
    (prettyList done level first ds).toList = done.toList ++ spacedList .lines level first ds := by
  cases ds with
  | nil => simp [prettyList, spacedList]
  | cons d rest =>
      rw [prettyList, toList_prettyList _ level false rest, toList_prettyOnto _ level d,
        toList_newline, toList_comma]
      simp [spacedList]

/-- The members of a pretty record are written with a line for each. -/
theorem toList_prettyRecord (done : String) (level : Nat) (first : Bool)
    (members : List (String × Document)) :
    (prettyRecord done level first members).toList =
      done.toList ++ spacedRecord .lines level first members := by
  cases members with
  | nil => simp [prettyRecord, spacedRecord]
  | cons member rest =>
      obtain ⟨key, d⟩ := member
      rw [prettyRecord, toList_prettyRecord _ level false rest, toList_prettyOnto _ level d]
      simp [spacedRecord, toList_newline, toList_comma, toList_writeText, Spacing.lines]

end

/-- The compact form is the document without blanks. -/
theorem toList_compact (d : Document) : d.compact.toList = d.spaced .tight 0 :=
  toList_compactOnto "" 0 d

/-- The pretty form is the document with each element and member on its line. -/
theorem toList_pretty (d : Document) : d.pretty.toList = d.spaced .lines 0 :=
  toList_prettyOnto "" 0 d

end Document

end Pinpoint.Json
