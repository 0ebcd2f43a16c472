import Pinpoint.Named
import Pinpoint.Patcher
import Pinpoint.Text.Escaped

/-!
# Pipelines of patchers

A pipeline holds patchers under names, in the order in which their names came in. Each patcher sees
the tree or the file as the one before it left it.
-/

namespace Pinpoint

/-- Patchers under their names, in order. -/
structure Pipeline where
  stages : List (String × Patcher)

namespace Pipeline

def empty : Pipeline := ⟨[]⟩

/-- The names in order. -/
def names (p : Pipeline) : List String := Named.names p.stages

def size (p : Pipeline) : Nat := p.stages.length

def isEmpty (p : Pipeline) : Bool := p.stages.isEmpty

/-- The patcher of a name. -/
def find? (p : Pipeline) (name : String) : Option Patcher := Named.find? name p.stages

def contains (p : Pipeline) (name : String) : Bool := (p.find? name).isSome

/-- Makes `patcher` the patcher of a name; a known name keeps its place. -/
def insert (p : Pipeline) (name : String) (patcher : Patcher) : Pipeline :=
  ⟨Named.put name patcher p.stages⟩

/-- Takes a name out; the others keep their order. -/
def erase (p : Pipeline) (name : String) : Pipeline :=
  ⟨Named.drop name p.stages⟩

/-- Takes a name out, and gives the patcher that was under it. -/
def remove (p : Pipeline) (name : String) : Option Patcher × Pipeline :=
  (p.find? name, p.erase name)

/-- Inserts stages one by one. -/
def ofList (stages : List (String × Patcher)) : Pipeline :=
  stages.foldl (fun p (name, patcher) => p.insert name patcher) empty

/-- The file to read for a class, after every patcher has had its say. -/
def locate (p : Pipeline) (loader : Loader) (name : String) (file : Path) : Path :=
  p.stages.foldl (fun file (_, patcher) => patcher.locate loader name file) file

/-- The file to read for a class that the loader knows. -/
def resolve? (p : Pipeline) (loader : Loader) (name : String) : Option Path :=
  (loader name).map (p.locate loader name)

/-- The tree of a file, after every patcher. -/
def patch (p : Pipeline) (file : Path) (tree : Span) : Span :=
  p.stages.foldl (fun tree (_, patcher) => patcher.patch file tree) tree

/-- What the stages tell of their work on a tree, each of the tree that it is given. -/
def eventsOf (file : Path) (tree : Span) : List (String × Patcher) → List Event
  | [] => []
  | (name, patcher) :: rest =>
    ⟨.debug, "jit_rebase::pipeline", "applying patcher",
        [("patcher", name), ("path", file.display)]⟩ ::
      (patcher.events file tree ++ eventsOf file (patcher.patch file tree) rest)

/-- What a pipeline tells of its work on a tree. -/
def events (p : Pipeline) (file : Path) (tree : Span) : List Event :=
  eventsOf file tree p.stages

/-- The names as they are shown. -/
def display (p : Pipeline) : String := Escaped.list p.names

/-! ## Names and lookups after a change -/

section

variable (p : Pipeline) (name other : String) (patcher : Patcher)

/-- The names are those that have a patcher. -/
theorem mem_names_iff : name ∈ p.names ↔ (p.find? name).isSome :=
  (Named.find?_isSome_iff name p.stages).symm

/-- A name that is inserted comes last, unless it is there already. -/
theorem names_insert :
    (p.insert name patcher).names =
      if name ∈ p.names then p.names else p.names ++ [name] :=
  Named.names_put name patcher p.stages

/-- An inserted patcher is found under its name, and the others are found as before. -/
theorem find?_insert :
    (p.insert name patcher).find? other = if name = other then some patcher else p.find? other :=
  Named.find?_put name other patcher p.stages

/-- A name that is taken out is no longer there, and the others keep their order. -/
theorem names_erase : (p.erase name).names = p.names.erase name :=
  Named.names_drop name p.stages

variable {p}

/-- Names that are different stay so when one is inserted. -/
theorem nodup_names_insert (h : p.names.Nodup) : (p.insert name patcher).names.Nodup :=
  Named.nodup_put h name patcher

/-- A patcher that was taken out is not found, and the others are found as before. -/
theorem find?_erase (h : p.names.Nodup) :
    (p.erase name).find? other = if name = other then none else p.find? other := by
  split
  · next heq => exact heq ▸ Named.find?_drop_self h name
  · next hne => exact Named.find?_drop_of_ne hne p.stages

end

end Pipeline

end Pinpoint
