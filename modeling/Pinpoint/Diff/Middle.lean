/-!
# The middle of a shortest edit path

The edits that turn one list of lines into another are a path from corner to corner of a grid: a
step along the first list removes a line, a step along the second adds one, and a diagonal step
keeps a line that both have. A path is sought from either corner at once, with one edit more in
every round. `middle?` is where the two searches meet, which is the place to cut both lists at.
-/

namespace Pinpoint.Diff

/-- How far along the first list each diagonal was followed. -/
structure Frontier where
  /-- The place of the diagonal through the corner. -/
  origin : Nat
  reach : Array Nat

namespace Frontier

/-- The frontier of a search that has room for some rounds. -/
def start (rounds : Nat) : Frontier := ⟨rounds, Array.replicate (2 * rounds + 1) 0⟩

def place (f : Frontier) (diagonal : Int) : Nat := (diagonal + f.origin).toNat

def get (f : Frontier) (diagonal : Int) : Nat := f.reach.getD (f.place diagonal) 0

def set (f : Frontier) (diagonal : Int) (x : Nat) : Frontier :=
  { f with reach := f.reach.setIfInBounds (f.place diagonal) x }

/-- Where a path with one edit more comes to a diagonal: from the neighbour that was followed
farther, and of two equal ones from the one below. -/
def entry (f : Frontier) (round : Nat) (diagonal : Int) : Nat :=
  if diagonal = -round ∨
      (diagonal ≠ round ∧ f.get (diagonal - 1) < f.get (diagonal + 1)) then
    f.get (diagonal + 1)
  else f.get (diagonal - 1) + 1

end Frontier

/-- Lines that both lists have, where a path goes on along a diagonal. -/
structure Run where
  x : Nat
  y : Nat
  length : Nat

/-- The two ways in which a round may end. -/
inductive Round where
  | onward (f : Frontier)
  | meeting (run : Run)

variable {α : Type} [DecidableEq α]

/-- How many lines agree from a place in either list on. -/
def agreement (old new : Array α) (x y : Nat) : Nat :=
  if h : x < old.size ∧ y < new.size then
    if old[x] = new[y] then agreement old new (x + 1) (y + 1) + 1 else 0
  else 0
termination_by old.size - x

/-- Follows the diagonals of a round one by one, up to the first on which the searches meet. -/
def follow (old new : Array α) (round : Nat) (meets : Int → Nat → Bool) :
    List Int → Frontier → Round
  | [], f => .onward f
  | diagonal :: rest, f =>
    let x := f.entry round diagonal
    let y := (x - diagonal).toNat
    let length := agreement old new x y
    if meets diagonal (x + length) then .meeting ⟨x, y, length⟩
    else follow old new round meets rest (f.set diagonal (x + length))

/-- The diagonals that a path with some edits may end on, the last one first. -/
def diagonals (round : Nat) : List Int :=
  (List.range (round + 1)).map fun i : Nat => (round : Int) - 2 * i

/-- Whether a path on a diagonal has come to the other search, of which the diagonals up to `seen`
are known. -/
def hasMet (size : Nat) (shift seen : Int) (other : Frontier) (diagonal : Int) (x : Nat) : Bool :=
  let across := diagonal - shift
  decide ((across.natAbs : Int) ≤ seen) && decide (size ≤ x + other.get (-across))

/-- Goes on from both corners for some rounds. The searches can meet in the first half of a round if
the lengths of the lists differ by an odd number, and in the second half otherwise. -/
def search (old new oldBack newBack : Array α) :
    Nat → Nat → Frontier → Frontier → Option (Nat × Nat)
  | 0, _, _, _ => none
  | rounds + 1, round, ahead, back =>
    let shift : Int := (old.size : Int) - new.size
    let isOdd := shift % 2 != 0
    let metAhead := fun k x => isOdd && hasMet old.size shift (round - 1) back k x
    match follow old new round metAhead (diagonals round) ahead with
    | .meeting run => some (run.x, run.y)
    | .onward ahead =>
      let metBack := fun k x => !isOdd && hasMet old.size shift round ahead k x
      match follow oldBack newBack round metBack (diagonals round) back with
      | .meeting run => some (old.size - (run.x + run.length), new.size - (run.y + run.length))
      | .onward back => search old new oldBack newBack rounds (round + 1) ahead back

/-- Where to cut two lists so that a shortest path goes through the cut. -/
def middle? (old new : List α) : Option (Nat × Nat) :=
  let rounds := (old.length + new.length + 1) / 2 + 1
  search old.toArray new.toArray old.reverse.toArray new.reverse.toArray rounds 0
    (.start rounds) (.start rounds)

end Pinpoint.Diff
