/-!
# Styles on a terminal

Whether a run shows styles hangs on its terminal and on what its environment asks for.
-/

namespace Pinpoint.Command

/-- What an environment says about styles, as far as it says something. -/
structure StyleWishes where
  /-- Asks for styles everywhere. -/
  force : Option String
  /-- Asks for none. -/
  plain : Option String
  /-- Asks for styles on a terminal, or for none there. -/
  onTerminal : Option String

namespace StyleWishes

/-- A wish counts as one unless it is a zero. -/
def isWish (value : String) : Bool := value != "0"

/-- Whether the output shows styles: if it must, or if it is a terminal and nothing is against it.
-/
def showsStyles (w : StyleWishes) (isTerminal : Bool) : Bool :=
  if w.force.any isWish then true
  else if w.plain.isSome then false
  else w.onTerminal.all isWish && isTerminal

/-- Whether the log shows styles: unless something is said against it. -/
def showsLogStyles (w : StyleWishes) : Bool := w.plain.all String.isEmpty

end StyleWishes

end Pinpoint.Command
