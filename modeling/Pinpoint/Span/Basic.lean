/-!
# Spans of a source

A source is held as a tree of spans. Each span has a text of its own, its body, and the spans inside
it in source order. `Span.outline` lists the spans of a tree with their depths, each before those
inside it; `Span.render` joins their bodies in that order.
-/

namespace Pinpoint

/-- What a span holds. -/
inductive SpanKind where
  | file
  | code
  | comment
  | string
  | plain
  | opening
  | closing
deriving Repr, DecidableEq

namespace SpanKind

def name : SpanKind → String
  | file => "file"
  | code => "code"
  | comment => "comment"
  | string => "string"
  | plain => "plain"
  | opening => "open"
  | closing => "close"

def all : List SpanKind := [file, code, comment, string, plain, opening, closing]

/-- The kinds with their names. -/
def named : List (String × SpanKind) := all.map fun kind => (kind.name, kind)

end SpanKind

/-- A span of a source: its own text, whether that may be changed, and the spans inside it. -/
structure Span where
  kind : SpanKind
  body : String := ""
  processable : Bool := true
  children : List Span := []
deriving Repr

namespace Span

mutual

/-- Compares trees span by span. -/
def decEq : (s t : Span) → Decidable (s = t)
  | ⟨k, b, p, cs⟩, ⟨k', b', p', cs'⟩ =>
    match decEqAll cs cs' with
    | isTrue h => decidable_of_iff (k = k' ∧ b = b' ∧ p = p') (by simp [h])
    | isFalse h => isFalse (by simp [h])

def decEqAll : (ss ts : List Span) → Decidable (ss = ts)
  | [], [] => isTrue rfl
  | [], _ :: _ => isFalse (by simp)
  | _ :: _, [] => isFalse (by simp)
  | s :: ss, t :: ts =>
    match decEq s t with
    | isFalse h => isFalse (by simp [h])
    | isTrue h =>
      match decEqAll ss ts with
      | isFalse h' => isFalse (by simp [h'])
      | isTrue h' => isTrue (by rw [h, h'])

end

instance : DecidableEq Span := decEq

instance : Inhabited Span := ⟨⟨.file, "", true, []⟩⟩

/-- The span of a whole source, still empty. -/
def file : Span := ⟨.file, "", true, []⟩

def code (body : String) : Span := ⟨.code, body, true, []⟩

def comment (body : String) : Span := ⟨.comment, body, true, []⟩

/-- A span without children. -/
def leaf (kind : SpanKind) (body : String) : Span := ⟨kind, body, true, []⟩

/-- Adds a span behind the children. -/
def addChild (s child : Span) : Span := { s with children := s.children ++ [child] }

/-- Adds spans behind the children. -/
def addChildren (s : Span) (more : List Span) : Span := { s with children := s.children ++ more }

/-- Excludes the body of a span from changes. -/
def exclude (s : Span) : Span := { s with processable := false }

/-- Whether the body of the span may be changed: only code may, unless it is excluded. -/
def isEligible (s : Span) : Bool := s.kind == .code && s.processable

mutual

/-- The number of spans in a tree. -/
def size : Span → Nat
  | ⟨_, _, _, children⟩ => 1 + sizeAll children

def sizeAll : List Span → Nat
  | [] => 0
  | s :: rest => size s + sizeAll rest

end

mutual

/-- Writes the bodies of a tree behind `done`. -/
def renderOnto (done : String) : Span → String
  | ⟨_, body, _, children⟩ => renderAll (done ++ body) children

def renderAll (done : String) : List Span → String
  | [] => done
  | s :: rest => renderAll (renderOnto done s) rest

end

/-- The source text of a tree. -/
def render (s : Span) : String := renderOnto "" s

mutual

/-- The spans of a tree with their depths, each before those inside it. -/
def outlineAt (depth : Nat) : Span → List (Nat × Span)
  | ⟨kind, body, processable, children⟩ =>
    (depth, ⟨kind, body, processable, children⟩) :: outlineAll (depth + 1) children

def outlineAll (depth : Nat) : List Span → List (Nat × Span)
  | [] => []
  | s :: rest => outlineAt depth s ++ outlineAll depth rest

end

def outline (s : Span) : List (Nat × Span) := outlineAt 0 s

/-- The spans of a tree, each before those inside it. -/
def toList (s : Span) : List Span := s.outline.map Prod.snd

/-- The bodies of a tree in source order. -/
def bodies (s : Span) : List String := s.toList.map body

mutual

/-- Goes over the spans of a tree, each before those inside it. -/
def foldl {σ : Type} (f : σ → Span → σ) (state : σ) : Span → σ
  | ⟨kind, body, processable, children⟩ =>
    foldlAll f (f state ⟨kind, body, processable, children⟩) children

def foldlAll {σ : Type} (f : σ → Span → σ) (state : σ) : List Span → σ
  | [] => state
  | s :: rest => foldlAll f (foldl f state s) rest

end

mutual

/-- Goes over the spans of a tree, each before those inside it, and gives each the body that `f`
answers. -/
def mapAccum {σ : Type} (f : σ → Span → σ × String) (state : σ) : Span → σ × Span
  | ⟨kind, body, processable, children⟩ =>
    let (state, body') := f state ⟨kind, body, processable, children⟩
    let (state, children') := mapAccumAll f state children
    (state, ⟨kind, body', processable, children'⟩)

def mapAccumAll {σ : Type} (f : σ → Span → σ × String) (state : σ) : List Span → σ × List Span
  | [] => (state, [])
  | s :: rest =>
    let (state, s') := mapAccum f state s
    let (state, rest') := mapAccumAll f state rest
    (state, s' :: rest')

end

mutual

/-- Gives every span of a tree the body that `f` answers. -/
def mapBodies (f : Span → String) : Span → Span
  | ⟨kind, body, processable, children⟩ =>
    ⟨kind, f ⟨kind, body, processable, children⟩, processable, mapBodiesAll f children⟩

def mapBodiesAll (f : Span → String) : List Span → List Span
  | [] => []
  | s :: rest => mapBodies f s :: mapBodiesAll f rest

end

/-- Changes the body of every eligible span of a tree. -/
def mapEligible (f : String → String) : Span → Span :=
  mapBodies fun s => if s.isEligible then f s.body else s.body

end Span

end Pinpoint
