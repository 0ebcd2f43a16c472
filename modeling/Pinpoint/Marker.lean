import Pinpoint.Path
import Pinpoint.Text.Quoted

/-!
# Location markers

A marker is a token that program code uses for the place of its own file. `Marker.replace` puts a
literal in the place of each occurrence that is not bound to what stands before it. The run of
blanks before an occurrence goes with it, unless the run follows a character that would bind the
literal: then its first blank stays.
-/

namespace Pinpoint

/-- The tokens that program code uses for its own place. -/
inductive Marker where
  | directory
  | file
deriving Repr, DecidableEq

namespace Marker

def token : Marker → List Char
  | .directory => ['_', '_', 'D', 'I', 'R', '_', '_']
  | .file => ['_', '_', 'F', 'I', 'L', 'E', '_', '_']

/-- The literal that a marker stands for in the file `p`. -/
def literal (p : Path) : Marker → List Char
  | .directory => Quoted.quote p.dirname.text
  | .file => Quoted.quote p.text

/-- The six blanks that may stand between a marker and what it follows. -/
def isBlank (c : Char) : Bool :=
  c == ' ' || (0x09 ≤ c.val && c.val ≤ 0x0D)

/-- Whether `c` binds a token that follows it: a sigil, a member operator or a part of a name. -/
def binds (c : Char) : Bool :=
  c == ':' || c == '$' || c == '>' || c == '\\' || c == '_' || c.isAlphanum || 0x7F ≤ c.val

/-- Whether nothing binds a token that follows `before`, or that begins the text. -/
def isFree (before : Option Char) : Bool := !before.any binds

/-- The state of a walk through a text. Both lists hold their last character first. -/
structure Walk where
  /-- The text settled so far. -/
  settled : List Char
  /-- The blanks read since then. -/
  blanks : List Char
  /-- The character that stood before those blanks. -/
  before : Option Char
  /-- The literals placed so far. -/
  count : Nat
deriving Repr, DecidableEq

namespace Walk

def start : Walk := ⟨[], [], none, 0⟩

/-- Settles the blanks and one character more. -/
def keep (w : Walk) (c : Char) : Walk :=
  ⟨c :: (w.blanks ++ w.settled), [], some c, w.count⟩

/-- Puts `literal` in the place of the blanks and of `token`, or of all but the first blank, or
settles the token as it is. -/
def meet (w : Walk) (token literal : List Char) : Walk :=
  if isFree w.before then
    ⟨literal.reverse ++ w.settled, [], token.getLast?, w.count + 1⟩
  else
    match w.blanks.getLast? with
    | some blank => ⟨literal.reverse ++ blank :: w.settled, [], token.getLast?, w.count + 1⟩
    | none => ⟨token.reverse ++ w.settled, [], token.getLast?, w.count⟩

/-- Walks on through `text`. -/
def run (token literal : List Char) (w : Walk) : List Char → Walk
  | [] => w
  | c :: rest =>
    if isBlank c then run token literal { w with blanks := c :: w.blanks } rest
    else if token.isPrefixOf (c :: rest) then
      run token literal (w.meet token literal) (rest.drop (token.length - 1))
    else run token literal (w.keep c) rest
termination_by text => text.length
decreasing_by all_goals simp; try omega

/-- The text walked through, as it stands now. -/
def text (w : Walk) : List Char := (w.blanks ++ w.settled).reverse

end Walk

/-- A text after substitution, with the number of literals placed. -/
structure Pinned where
  text : List Char
  count : Nat
deriving Repr, DecidableEq

/-- Puts `literal` in the place of every free occurrence of the marker. -/
def replace (m : Marker) (literal text : List Char) : Pinned :=
  let walked := Walk.run m.token literal .start text
  ⟨walked.text, walked.count⟩

/-- Pins both markers of a body to the file `p`, the directory first. -/
def pin (p : Path) (body : List Char) : Pinned :=
  let first := replace .directory (literal p .directory) body
  let second := replace .file (literal p .file) first.text
  ⟨second.text, first.count + second.count⟩

/-- `pin` on strings. -/
def pinString (p : Path) (body : String) : String × Nat :=
  let pinned := pin p body.toList
  (String.ofList pinned.text, pinned.count)

end Marker

end Pinpoint
