/-!
# Styled text

A terminal shows a text in a style if it stands between the style's code and a reset. A reset inside
the text is followed by the code again, so that the style lasts to the end.
-/

namespace Pinpoint

/-- The code of a style, as numbers with semicolons between them. -/
structure Style where
  code : String
deriving Repr, DecidableEq

namespace Style

def red : Style := ⟨"31"⟩
def green : Style := ⟨"32"⟩
def yellow : Style := ⟨"33"⟩
def blue : Style := ⟨"34"⟩
def magenta : Style := ⟨"35"⟩
def cyan : Style := ⟨"36"⟩
def dim : Style := ⟨"2"⟩
def italic : Style := ⟨"3"⟩
def boldRed : Style := ⟨"1;31"⟩

def escapeChar : Char := '\x1b'

/-- What begins the style. -/
def opening (s : Style) : List Char := escapeChar :: '[' :: (s.code.toList ++ ['m'])

/-- What ends every style. -/
def reset : List Char := [escapeChar, '[', '0', 'm']

/-- Writes `again` behind each reset in a text. -/
def resume (again : List Char) : List Char → List Char
  | [] => []
  | c :: rest =>
    if reset.isPrefixOf (c :: rest) then reset ++ again ++ resume again (rest.drop 3)
    else c :: resume again rest
termination_by text => text.length
decreasing_by all_goals simp; try omega

/-- Shows a text in the style. -/
def apply (s : Style) (text : String) : String :=
  String.ofList (s.opening ++ resume s.opening text.toList ++ reset)

/-- Shows a text in a style if there is one and styles are shown at all. -/
def paint (shown : Bool) (style : Option Style) (text : String) : String :=
  match style with
  | some s => if shown then s.apply text else text
  | none => text

end Style

end Pinpoint
