import Pinpoint.Files
import Pinpoint.Log.Event

/-!
# Sessions

A session is a program at work: it reads files, prints texts, tells of events, and comes to a
result. What it does next may depend on all that it has read. `Session.actions` lists what it does,
in order, when the files are known.
-/

namespace Pinpoint

/-- A program at work. -/
inductive Session (α : Type) where
  | done (result : α)
  | reading (file : Path) (next : Except ReadError String → Session α)
  | printing (text : String) (next : Session α)
  | telling (event : Event) (next : Session α)

/-- Something that a session does. -/
inductive Action where
  | read (file : Path)
  | print (text : String)
  | tell (event : Event)
deriving Repr, DecidableEq

namespace Action

def file? : Action → Option Path
  | read file => some file
  | _ => none

def text? : Action → Option String
  | print text => some text
  | _ => none

def event? : Action → Option Event
  | tell event => some event
  | _ => none

end Action

namespace Session

variable {α β : Type}

/-- Goes on with what a session comes to. -/
def andThen : Session α → (α → Session β) → Session β
  | done result, f => f result
  | reading file next, f => reading file fun content => (next content).andThen f
  | printing text next, f => printing text (next.andThen f)
  | telling event next, f => telling event (next.andThen f)

instance : Monad Session where
  pure := done
  bind := andThen

/-- Reads the text of a file. -/
def read (file : Path) : Session (Except ReadError String) := reading file done

/-- Prints a text. -/
def print (text : String) : Session Unit := printing text (done ())

/-- Tells of events one by one. -/
def tell : List Event → Session Unit
  | [] => done ()
  | event :: rest => telling event (tell rest)

/-- What a session comes to. -/
def result (source : TextSource) : Session α → α
  | done result => result
  | reading file next => result source (next (source file))
  | printing _ next => result source next
  | telling _ next => result source next

/-- What a session does, in order. -/
def actions (source : TextSource) : Session α → List Action
  | done _ => []
  | reading file next => .read file :: actions source (next (source file))
  | printing text next => .print text :: actions source next
  | telling event next => .tell event :: actions source next

/-- The files that a session reads. -/
def files (source : TextSource) (s : Session α) : List Path :=
  (s.actions source).filterMap Action.file?

/-- The texts that a session prints. -/
def texts (source : TextSource) (s : Session α) : List String :=
  (s.actions source).filterMap Action.text?

/-- The events that a session tells of. -/
def events (source : TextSource) (s : Session α) : List Event :=
  (s.actions source).filterMap Action.event?

/-! ## Sessions one after the other -/

section

variable (source : TextSource) (s : Session α) (f : α → Session β)

/-- Two sessions, one after the other, come to what the second comes to. -/
theorem result_bind : (s >>= f).result source = (f (s.result source)).result source := by
  show (s.andThen f).result source = _
  induction s with
  | done result => rfl
  | reading file next ih => exact ih (source file)
  | printing text next ih => exact ih
  | telling event next ih => exact ih

/-- Two sessions, one after the other, do what each does. -/
theorem actions_bind :
    (s >>= f).actions source = s.actions source ++ (f (s.result source)).actions source := by
  show (s.andThen f).actions source = _
  induction s with
  | done result => rfl
  | reading file next ih => exact congrArg (.read file :: ·) (ih (source file))
  | printing text next ih => exact congrArg (.print text :: ·) ih
  | telling event next ih => exact congrArg (.tell event :: ·) ih

/-- Two sessions, one after the other, read what each reads. -/
theorem files_bind :
    (s >>= f).files source = s.files source ++ (f (s.result source)).files source := by
  rw [files, actions_bind, List.filterMap_append]
  rfl

/-- Two sessions, one after the other, print what each prints. -/
theorem texts_bind :
    (s >>= f).texts source = s.texts source ++ (f (s.result source)).texts source := by
  rw [texts, actions_bind, List.filterMap_append]
  rfl

/-- To tell of events is to read nothing. -/
theorem files_tell (events : List Event) : (tell events).files source = [] := by
  induction events with
  | nil => rfl
  | cons event rest ih => exact ih

/-- To tell of events is to print nothing. -/
theorem texts_tell (events : List Event) : (tell events).texts source = [] := by
  induction events with
  | nil => rfl
  | cons event rest ih => exact ih

end

end Session

end Pinpoint
