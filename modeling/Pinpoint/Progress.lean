import Pinpoint.Report
import Pinpoint.Sink
import Pinpoint.Text.Line

/-!
# Progress of a test run

A run shows a glyph for each outcome, with a percentage behind every full line. Its end fills the
last line with blanks, tells of each notable report, and closes with the tally.

Each call is a `Work`: the texts it writes one after the other, each with the state that stays if
the sink refuses it. `Work.run` does the work on a sink, and stops at the first text that is
refused.
-/

namespace Pinpoint

/-- The state of a run. -/
structure Progress where
  /-- The number of glyphs on a line. -/
  width : Nat
  /-- Whether styles are shown. -/
  styled : Bool
  /-- The glyphs written so far, blanks among them. -/
  column : Nat
  /-- The reports made so far. -/
  made : Nat
  /-- The reports to be made. -/
  total : Nat
  tally : Tally
  /-- The notable reports that were not told of yet, the last one first. -/
  pending : List Report
  width_pos : 0 < width
deriving Repr

/-- What a call writes, and the states it goes through. -/
inductive Work where
  | done (state : Progress)
  /-- Writes a text. If it is refused, the work ends in `state`. -/
  | write (text : String) (state : Progress) (next : Unit → Work)

namespace Work

/-- The state in which the work ends if no text is refused. -/
def final : Work → Progress
  | done state => state
  | write _ _ next => final (next ())

/-- The texts that are written if none is refused. -/
def texts : Work → List String
  | done _ => []
  | write text _ next => text :: texts (next ())

/-- Does the work on a sink. Gives the sink and the state it ends in, and whether all was taken. -/
def run {σ : Type} (sink : Sink σ) (held : σ) : Work → σ × Progress × Bool
  | done state => (held, state, true)
  | write text state next =>
    match sink.write held text with
    | (held, true) => run sink held (next ())
    | (held, false) => (held, state, false)

end Work

namespace Progress

/-- A run that has not begun. A line has room for one glyph at least. -/
def new (width : Nat) (styled : Bool) : Progress :=
  ⟨max width 1, styled, 0, 0, 0, .zero, [], by omega⟩

/-- How many of a hundred parts of the reports were made. -/
def percent (p : Progress) : Nat :=
  if p.total = 0 then 100 else p.made * 100 / p.total

def paint (p : Progress) (style : Option Style) (text : String) : String :=
  Style.paint p.styled style text

/-- Begins a run of `total` reports. -/
def begin (p : Progress) (total : Nat) : Work :=
  let p := { p with total }
  .write "\n" p fun _ => .done p

/-- Writes a glyph, and the percentage if it fills its line. -/
def glyph (p : Progress) (style : Option Style) (mark : String) (next : Progress → Work) : Work :=
  let after := { p with column := p.column + 1 }
  .write (p.paint style mark) p fun _ =>
    if after.column % after.width = 0 then
      .write (" " ++ toString after.percent ++ "%\n") after fun _ => next after
    else next after

/-- Takes a report in, and shows its glyph. -/
def report (p : Progress) (r : Report) : Work :=
  let p := { p with made := p.made + 1, tally := p.tally.record r.outcome }
  p.glyph r.outcome.style? r.outcome.glyph fun p =>
    .done (if r.outcome.isNotable then { p with pending := r :: p.pending } else p)

/-- Writes a number of blanks as glyphs. -/
def pad (next : Progress → Work) : Nat → Progress → Work
  | 0, p => next p
  | n + 1, p => p.glyph none " " (pad next n)

/-- The blanks that fill the last line; a full line is followed by a line of blanks. -/
def padding (p : Progress) : Nat := p.width - p.column % p.width

/-- Writes texts one by one. -/
def write (p : Progress) (next : Unit → Work) : List String → Work
  | [] => next ()
  | text :: rest => .write text p fun _ => write p next rest

/-- The texts that tell of a report in detail. -/
def detail (p : Progress) (r : Report) : List String :=
  ("\n" ++ p.paint r.outcome.style? r.outcome.label ++ " " ++ r.description) ::
    ((r.message.map Line.split).getD []).map ("\n    " ++ ·) ++ ["\n"]

/-- The texts that close a run. -/
def closing (p : Progress) : List String :=
  let style : Style := if p.tally.isSuccess then .green else .red
  ["\n\n", p.paint (some style) p.tally.display ++ "\n"]

/-- Ends a run. The reports are no longer pending once the last line is filled. -/
def finish (p : Progress) : Work :=
  pad (fun p =>
    let told := { p with pending := [] }
    told.write (fun _ => told.write (fun _ => .done told) told.closing)
      (p.pending.reverse.flatMap told.detail)) p.padding p

/-- The calls on a run. -/
inductive Call where
  | begin (total : Nat)
  | report (r : Report)
  | finish
deriving Repr, DecidableEq

/-- What a call does. -/
def call (p : Progress) : Call → Work
  | .begin total => p.begin total
  | .report r => p.report r
  | .finish => p.finish

/-- Makes calls one by one on a sink, whether they succeed or not. Gives the sink and the state in
the end, and which calls succeeded. -/
def calls {σ : Type} (sink : Sink σ) (held : σ) (p : Progress) :
    List Call → σ × Progress × List Bool
  | [] => (held, p, [])
  | c :: rest =>
    let (held, p, taken) := (p.call c).run sink held
    let (held, p, results) := calls sink held p rest
    (held, p, taken :: results)

end Progress

end Pinpoint
