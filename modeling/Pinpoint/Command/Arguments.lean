import Pinpoint.Command.Flag

/-!
# Arguments of the command line

`Invocation.ofArguments` reads what the arguments ask for. They are read from left to right: the
first that asks for help or for the version ends the reading, and so does the first that cannot be
right. What is missing, and what does not go together, is seen only in the end.
-/

namespace Pinpoint.Command

/-- Why a command line asks for no command to be run. -/
inductive Halt where
  | help
  | version
  | misuse
deriving Repr, DecidableEq

/-- An argument by its form. -/
inductive Argument where
  /-- The two dashes that end the flags. -/
  | dashes
  /-- A flag by its name, with the value that is attached to it. -/
  | named (name : List UInt8) (value : Option (List UInt8))
  /-- Flags by their letters. -/
  | letters (letters : List UInt8)
  | word (bytes : List UInt8)

namespace Argument

def dash : UInt8 := 0x2D

def equals : UInt8 := 0x3D

/-- Tells an argument's form. A single dash is a word. -/
def ofBytes (bytes : List UInt8) : Argument :=
  match bytes with
  | first :: second :: rest =>
    if first ≠ dash then .word bytes
    else if second ≠ dash then .letters (second :: rest)
    else if rest.isEmpty then .dashes
    else
      match rest.dropWhile (· != equals) with
      | [] => .named rest none
      | _ :: value => .named (rest.takeWhile (· != equals)) (some value)
  | _ => .word bytes

end Argument

/-- The flags that were read in one place, with their values; a flag without a value has an empty
one. -/
structure Reading where
  taken : List (Flag × List UInt8)
  /-- A flag whose value is the next argument, or was. It is taken when the next flag is. -/
  awaiting : Option (Flag × Option (List UInt8))

namespace Reading

def empty : Reading := ⟨[], none⟩

def has (r : Reading) (flag : Flag) : Bool := r.taken.any (·.1 == flag)

def count (r : Reading) (flag : Flag) : Nat := r.taken.countP (·.1 == flag)

def value? (r : Reading) (flag : Flag) : Option (List UInt8) := r.taken.lookup flag

def path? (r : Reading) (flag : Flag) : Option Path := (r.value? flag).map Path.mk

def text? (r : Reading) (flag : Flag) : Option String :=
  (r.value? flag).bind fun value => String.fromUTF8? ⟨value.toArray⟩

/-- Takes a flag in. It must not have been taken before unless it is repeatable, and its value must
be one for it. -/
def accept (r : Reading) (flag : Flag) (value : List UInt8) : Except Halt Reading :=
  if r.has flag && !flag.isRepeatable then .error .misuse
  else if flag.hasValue && !flag.accepts value then .error .misuse
  else .ok { r with taken := r.taken ++ [(flag, value)] }

/-- Takes in the flag that has its value as an argument of its own. -/
def settle (r : Reading) : Except Halt Reading :=
  match r.awaiting with
  | none => .ok r
  | some (_, none) => .error .misuse
  | some (flag, some value) => ({ r with awaiting := none }).accept flag value

/-- Takes in a flag with what is attached to it. -/
def take (r : Reading) (flag : Flag) (value : List UInt8) : Except Halt Reading := do
  let r ← r.settle
  match flag with
  | .help => .error .help
  | .version => .error .version
  | flag => r.accept flag value

/-- Expects the value of a flag as the next argument. -/
def await (r : Reading) (flag : Flag) : Except Halt Reading := do
  return { ← r.settle with awaiting := some (flag, none) }

/-- Reads a flag that was called by its name. -/
def named (r : Reading) (flag : Flag) (value : Option (List UInt8)) : Except Halt Reading :=
  match flag.hasValue, value with
  | true, some value => r.take flag value
  | true, none => r.await flag
  | false, some _ => .error .misuse
  | false, none => r.take flag []

/-- Reads flags that were called by their letters. Letters behind a flag with a value are the value;
an equals sign may stand between. -/
def letters (scope : Scope) (r : Reading) : List UInt8 → Except Halt Reading
  | [] => .ok r
  | letter :: rest =>
    match scope.ofLetter? letter with
    | none => .error .misuse
    | some flag =>
      if !flag.hasValue then do letters scope (← r.take flag []) rest
      else if rest.isEmpty then r.await flag
      else r.take flag (if rest.head? = some Argument.equals then rest.drop 1 else rest)

/-- Reads the flags of one place, up to the first word that is no value. -/
def flags (scope : Scope) (r : Reading) :
    List (List UInt8) → Except Halt (Reading × List (List UInt8))
  | [] => .ok (r, [])
  | argument :: rest =>
    match Argument.ofBytes argument with
    | .dashes => if rest.isEmpty then .ok (r, []) else .error .misuse
    | .named name value =>
      match scope.ofName? name with
      | none => .error .misuse
      | some flag => do flags scope (← r.named flag value) rest
    | .letters bytes => do flags scope (← r.letters scope bytes) rest
    | .word bytes =>
      match r.awaiting with
      | some (flag, none) => flags scope { r with awaiting := some (flag, some bytes) } rest
      | _ => .ok (r, argument :: rest)

end Reading

/-- How a patched tree is shown. -/
inductive Form where
  | source
  | json
  | diff
deriving Repr, DecidableEq

/-- What a command is to do. -/
inductive Task where
  /-- Patches the tree of a document as read from `file`. -/
  | patch (tree file : Path) (form : Form)
  /-- Tells the file to read for a class that a loader proposes `file` for. -/
  | locate (name : String) (file : Path)
  /-- Shows the progress of reports. -/
  | report (input : Path)
deriving Repr, DecidableEq

/-- What a command line asks for. -/
structure Invocation where
  config : Option Path
  verbosity : Nat
  task : Task
deriving Repr, DecidableEq

namespace Invocation

/-- The form that flags ask for; it can be one only. -/
def form? (r : Reading) : Option Form :=
  match r.has .json, r.has .diff with
  | true, true => none
  | true, false => some .json
  | false, true => some .diff
  | false, false => some .source

/-- The task of a command, if none of its flags is missing. -/
def task? (r : Reading) : Scope → Option Task
  | .start => none
  | .patch => do return .patch (← r.path? .tree) (← r.path? .path) (← form? r)
  | .locate => do return .locate (← r.text? .className) (← r.path? .file)
  | .report => do return .report (← r.path? .input)

/-- Joins what was read in front of a command with what was read behind it, which goes first. -/
def ofReadings? (front back : Reading) (scope : Scope) : Option Invocation := do
  let verbosity := if back.has .verbose then back.count .verbose else front.count .verbose
  return ⟨(back.path? .config).or (front.path? .config), verbosity, ← task? back scope⟩

/-- The name of the command that asks for help. -/
def helpName : String := "help"

/-- What it comes to when help is asked for by words. They may name one command. -/
def helpFor (words : List (List UInt8)) : Halt :=
  let names := (helpName :: Scope.commands.map Prod.fst).map fun name => name.toUTF8.toList
  match words with
  | [] => .help
  | [word] => if names.contains word then .help else .misuse
  | _ => .misuse

/-- Reads what the arguments ask for. -/
def ofArguments (arguments : List (List UInt8)) : Except Halt Invocation := do
  let (front, rest) ← Reading.empty.flags .start arguments
  match rest with
  | [] => .error .misuse
  | word :: rest =>
    if word = helpName.toUTF8.toList then .error (helpFor rest)
    else
      match Scope.commands.find? fun (name, _) => name.toUTF8.toList == word with
      | none => .error .misuse
      | some (_, scope) =>
        let (back, surplus) ← Reading.empty.flags scope rest
        if !surplus.isEmpty then .error .misuse
        else
          match ofReadings? (← front.settle) (← back.settle) scope with
          | none => .error .misuse
          | some invocation => .ok invocation

end Invocation

end Pinpoint.Command
