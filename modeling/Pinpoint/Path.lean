import Pinpoint.Text.Utf8

/-!
# File paths

A path is any sequence of bytes, cut into pieces at its slashes. A piece is a *step* if it names
something: empty pieces and single dots do not, except for a dot that begins a relative path.
`Path.parent?` and `Path.dirname` keep the text of what they leave, and only cut it short.
-/

namespace Pinpoint

/-- A file path, held as the bytes the system gave. -/
structure Path where
  bytes : List UInt8
deriving Repr, DecidableEq, Inhabited

namespace Path

/-- The byte that separates pieces. -/
def slash : UInt8 := 0x2F

/-- The byte of the pieces `.` and `..`. -/
def dot : UInt8 := 0x2E

def ofString (text : String) : Path := ⟨text.toUTF8.toList⟩

/-- The path as text, with replacement characters where it is none. -/
def text (p : Path) : List Char := Utf8.decode p.bytes

/-- The path as it is shown to a reader. -/
def display (p : Path) : String := String.ofList p.text

def isAbsolute (p : Path) : Bool := p.bytes.head? == some slash

/-- Cuts bytes at each slash; there is always one piece more than there are slashes. -/
def pieces : List UInt8 → List (List UInt8)
  | [] => [[]]
  | b :: rest =>
    if b = slash then [] :: pieces rest
    else
      match pieces rest with
      | [] => [[b]]
      | piece :: more => (b :: piece) :: more

/-- Whether the piece at `index` names something. -/
def isStep (index : Nat) (piece : List UInt8) : Bool :=
  !piece.isEmpty && (piece != [dot] || index == 0)

/-- The pieces with their positions, the last one first, and without those after the last step. -/
def fromLastStep (p : Path) : List (List UInt8 × Nat) :=
  (pieces p.bytes).zipIdx.reverse.dropWhile fun (piece, index) => !isStep index piece

/-- A named part of a path. -/
inductive Component where
  | root
  | here
  | up
  | name (bytes : List UInt8)
deriving Repr, DecidableEq

/-- What a step stands for. -/
def Component.ofStep (piece : List UInt8) : Component :=
  if piece = [dot] then .here else if piece = [dot, dot] then .up else .name piece

/-- The parts of a path, in order. -/
def components (p : Path) : List Component :=
  (if p.isAbsolute then [Component.root] else []) ++
    ((pieces p.bytes).zipIdx.filter fun (piece, index) => isStep index piece).map
      fun (piece, _) => Component.ofStep piece

/-- The path without its last step, and without the separators and dots that lead up to it. A path
with no step has no parent. -/
def parent? (p : Path) : Option Path :=
  match p.fromLastStep with
  | [] => none
  | _ :: before =>
    match before.dropWhile fun (piece, index) => !isStep index piece with
    | [] => some ⟨if p.isAbsolute then [slash] else []⟩
    | kept => some ⟨[slash].intercalate (kept.reverse.map Prod.fst)⟩

/-- The last step, if it is a name. -/
def fileName? (p : Path) : Option (List UInt8) :=
  match p.fromLastStep with
  | [] => none
  | (piece, _) :: _ =>
    match Component.ofStep piece with
    | .name bytes => some bytes
    | _ => none

/-- `q` seen from `p`: an absolute `q` stands alone, any other is appended behind a slash. -/
def join (p q : Path) : Path :=
  if q.isAbsolute then q
  else if p.bytes.isEmpty ∨ p.bytes.getLast? = some slash then ⟨p.bytes ++ q.bytes⟩
  else ⟨p.bytes ++ slash :: q.bytes⟩

/-- The directory of a path: its parent, a dot for a lone name, and the path itself if it has no
parent. The empty path stays empty. -/
def dirname (p : Path) : Path :=
  if p.bytes.isEmpty then p
  else
    match p.parent? with
    | none => p
    | some parent => if parent.bytes.isEmpty then ⟨[dot]⟩ else parent

end Path

end Pinpoint
