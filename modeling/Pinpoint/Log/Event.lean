import Pinpoint.Text.Style

/-!
# Events of a run

An event is something a run did that a reader of its log may want to know. Its fields hold their
values as they are written.
-/

namespace Pinpoint

/-- How much a reader must want to know to be told. -/
inductive LogLevel where
  | error
  | warn
  | info
  | debug
  | trace
deriving Repr, DecidableEq

namespace LogLevel

/-- The levels in order: a reader who wants one of them is told all before it too. -/
def rank : LogLevel → Nat
  | error => 1
  | warn => 2
  | info => 3
  | debug => 4
  | trace => 5

def name : LogLevel → String
  | error => "ERROR"
  | warn => "WARN"
  | info => "INFO"
  | debug => "DEBUG"
  | trace => "TRACE"

/-- The style in which the name of the level is shown. -/
def style : LogLevel → Style
  | error => .red
  | warn => .yellow
  | info => .green
  | debug => .blue
  | trace => .magenta

end LogLevel

/-- Something a run did. -/
structure Event where
  level : LogLevel
  /-- The part of the program that tells of it. -/
  target : String
  message : String
  fields : List (String × String)
deriving Repr, DecidableEq

namespace Event

/-- A field of an event in a log. -/
def fieldText (styled : Bool) (name value : String) : String :=
  Style.paint styled (some .italic) name ++ Style.paint styled (some .dim) "=" ++ value

/-- The line of an event in a log. -/
def line (styled : Bool) (e : Event) : String :=
  e.fields.foldl (fun line (name, value) => line ++ " " ++ fieldText styled name value)
    (Style.paint styled (some e.level.style) e.level.name ++ " " ++ e.message)

end Event

end Pinpoint
