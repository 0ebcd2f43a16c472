import Pinpoint.Log.Event
import Pinpoint.Text.Blank

/-!
# Log filters

A filter says which events a reader is told of. It is a list of directives, each of which sets a
level for the targets that begin with some text, or for all. Of the directives about a target the
one with the longest text counts, and of two with the same text the later one.
`LogFilter.ofString?` reads a filter from its text, which has commas between the directives.
-/

namespace Pinpoint

namespace LogLevel

def all : List LogLevel := [error, warn, info, debug, trace]

/-- The levels, and the lack of any, with the names by which a filter calls them. -/
def settings : List (String × Option LogLevel) :=
  ("OFF", none) :: all.map fun level => (level.name, some level)

/-- The number that a text of digits stands for. A plus sign may come first. -/
def number? (text : List Char) : Option Nat :=
  let digits := if text.head? = some '+' then text.drop 1 else text
  if digits.isEmpty ∨ digits.any (!·.isDigit) then none
  else some (digits.foldl (fun n c => n * 10 + (c.toNat - '0'.toNat)) 0)

/-- The level that a text sets: its name in any case, or its rank, where rank zero is the lack of a
level. -/
def setting? (text : List Char) : Option (Option LogLevel) :=
  match number? text with
  | some n => if n = 0 then some none else (all.find? fun level => level.rank = n).map some
  | none => settings.lookup (String.ofList (text.map Char.toUpper))

end LogLevel

/-- A level for some targets. -/
structure Directive where
  /-- What the targets begin with; the directive is about every target if there is nothing here. -/
  target : Option String
  /-- The last level to be told of, if there is one. -/
  level : Option LogLevel
deriving Repr, DecidableEq

namespace Directive

def isAbout (d : Directive) (target : String) : Bool :=
  match d.target with
  | none => true
  | some text => text.toList.isPrefixOf target.toList

/-- How closely the directive describes its targets. -/
def closeness (d : Directive) : Nat :=
  match d.target with
  | none => 0
  | some text => text.length + 1

def admits (d : Directive) (level : LogLevel) : Bool :=
  match d.level with
  | none => false
  | some last => level.rank ≤ last.rank

/-- Whether a directive may begin with a character. -/
def isStart (c : Char) : Bool :=
  c.isAlphanum || c == '-' || c == ':' || c == '_' || c == '[' || 0x80 ≤ c.toNat

/-- Reads a directive: a level, a target, or a target with its level. A target alone is told of at
every level. A target may end in a bracket that describes where an event happens, and is then about
no event. White space belongs to the words, so it makes a level unreadable, and a word with white
space the name of a target. -/
def ofText? (text : List Char) : Option Directive := do
  let first ← (text.dropWhile Blank.isBlank).head?
  guard (isStart first)
  let word := text.takeWhile (· != '=')
  let target := String.ofList word
  guard (!word.contains '[' || word.getLast? == some ']')
  match text.dropWhile (· != '=') with
  | [] =>
    match LogLevel.setting? word with
    | some level => return ⟨none, level⟩
    | none => return ⟨some target, some .trace⟩
  | _ :: setting =>
    guard (text.head? == some first)
    if setting.isEmpty then return ⟨some target, some .trace⟩
    else return ⟨some target, ← LogLevel.setting? setting⟩

end Directive

/-- Which events a reader is told of. -/
structure LogFilter where
  directives : List Directive
deriving Repr, DecidableEq

namespace LogFilter

/-- Tells of the events of every target up to a level. -/
def upTo (level : LogLevel) : LogFilter := ⟨[⟨none, some level⟩]⟩

/-- The closer of two directives, and the later one of two that are equally close. -/
def closer (best : Option Directive) (d : Directive) : Option Directive :=
  match best with
  | none => some d
  | some b => if b.closeness ≤ d.closeness then some d else some b

/-- The directive that counts for a target. -/
def directive? (f : LogFilter) (target : String) : Option Directive :=
  (f.directives.filter (·.isAbout target)).foldl closer none

/-- Whether a reader is told of an event. -/
def admits (f : LogFilter) (e : Event) : Bool :=
  match f.directive? e.target with
  | none => false
  | some d => d.admits e.level

/-- Reads a filter. A filter without text tells of nothing; otherwise each piece must be a
directive. -/
def ofString? (text : String) : Option LogFilter :=
  if text.isEmpty then some ⟨[]⟩
  else ((text.splitOn ",").mapM fun piece => Directive.ofText? piece.toList).map LogFilter.mk

/-- The lines of a log of some events, as far as a reader is told of them. -/
def log (f : LogFilter) (styled : Bool) (events : List Event) : List String :=
  (events.filter f.admits).map (Event.line styled)

end LogFilter

end Pinpoint
