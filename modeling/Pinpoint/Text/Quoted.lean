/-!
# Quoted literals

A literal is written between apostrophes, with a backslash before each apostrophe inside it. No
other character is escaped.
-/

namespace Pinpoint.Quoted

/-- The delimiter of a literal. -/
def apostrophe : Char := Char.ofNat 0x27

/-- Writes a backslash before each apostrophe. -/
def escape : List Char → List Char
  | [] => []
  | c :: rest => if c = apostrophe then '\\' :: c :: escape rest else c :: escape rest

/-- The literal that stands for `text` in program code. -/
def quote (text : List Char) : List Char :=
  apostrophe :: (escape text ++ [apostrophe])

end Pinpoint.Quoted
