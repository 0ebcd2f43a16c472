/-!
# Lines

`Line.split` cuts a text at its line feeds and drops them, `Line.pieces` cuts it behind every line
end and keeps the ends. `flatten_pieces` says that no character gets lost.
-/

namespace Pinpoint.Line

/-- Drops the carriage return that a line feed left behind. -/
def dropReturn : List Char → List Char
  | '\r' :: rest => rest
  | line => line

/-- Cuts a text at its line feeds; `current` holds the line begun, last character first. A text that
ends in a line feed has no line behind it. -/
def splitFrom (current : List Char) : List Char → List (List Char)
  | [] => if current.isEmpty then [] else [current.reverse]
  | c :: rest =>
    if c = '\n' then (dropReturn current).reverse :: splitFrom [] rest
    else splitFrom (c :: current) rest

/-- The lines of a text, without their ends. -/
def split (text : String) : List String := (splitFrom [] text.toList).map String.ofList

/-- Cuts a text behind each line end: a line feed, a carriage return, or the two together. -/
def piecesFrom (current : List Char) : List Char → List (List Char)
  | [] => if current.isEmpty then [] else [current.reverse]
  | '\r' :: '\n' :: rest => ('\n' :: '\r' :: current).reverse :: piecesFrom [] rest
  | c :: rest =>
    if c = '\r' ∨ c = '\n' then (c :: current).reverse :: piecesFrom [] rest
    else piecesFrom (c :: current) rest

/-- The lines of a text, with their ends. -/
def pieces (text : List Char) : List (List Char) := piecesFrom [] text

/-- The lines that are cut make up the text, behind the line begun. -/
theorem flatten_piecesFrom (current text : List Char) :
    (piecesFrom current text).flatten = current.reverse ++ text := by
  fun_induction piecesFrom current text with
  | case1 current h => simp_all
  | case2 current h => simp
  | case3 current rest ih => simp [ih]
  | case4 current c rest _ h ih => simp [ih]
  | case5 current c rest _ h ih => simp [ih]

/-- The lines of a text make up the text. -/
theorem flatten_pieces (text : List Char) : (pieces text).flatten = text := by
  simp [pieces, flatten_piecesFrom]

/-- Whether a line has its end. -/
def isEnded (line : List Char) : Bool :=
  line.getLast? == some '\n' || line.getLast? == some '\r'

end Pinpoint.Line
