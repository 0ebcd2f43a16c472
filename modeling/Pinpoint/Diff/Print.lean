import Pinpoint.Diff.Script
import Pinpoint.Path
import Pinpoint.Text.Line
import Pinpoint.Text.Style

/-!
# Printing edit scripts

A diff shows every line of two texts behind the mark of its edit. `Diff.print` writes it below a
header that names the file.
-/

namespace Pinpoint.Diff

namespace Mark

/-- The character in front of a line. -/
def sign : Mark → Char
  | keep => ' '
  | remove => '-'
  | add => '+'

def style? : Mark → Option Style
  | keep => none
  | remove => some .red
  | add => some .green

end Mark

/-- A line of a diff. -/
structure Row where
  mark : Mark
  line : List Char
deriving Repr, DecidableEq

namespace Row

/-- The line with its end; a line without one gets a line feed. -/
def ended (line : List Char) : List Char := if Line.isEnded line then line else line ++ ['\n']

/-- Shows the line behind its mark. -/
def print (styled : Bool) (r : Row) : String :=
  Style.paint styled r.mark.style? (String.ofList (r.mark.sign :: ended r.line))

end Row

/-- The lines of a script, each with its mark. -/
def Script.rows (s : Script (List Char)) : List Row :=
  s.flatMap fun edit => edit.lines.map (Row.mk edit.mark)

/-- The lines of a diff between two texts. -/
def rows (old new : String) : List Row :=
  (Script.between (Line.pieces old.toList) (Line.pieces new.toList)).rows

/-- Shows a line of a header. -/
def header (styled : Bool) (text : String) : String :=
  Style.paint styled (some .dim) text ++ "\n"

/-- Shows the diff between the texts of a file before it is patched and after. -/
def print (styled : Bool) (file : Path) (old new : String) : String :=
  header styled ("--- " ++ file.display ++ " (original)") ++
    header styled ("+++ " ++ file.display ++ " (patched)") ++
    String.join ((rows old new).map (Row.print styled))

end Pinpoint.Diff
