import Pinpoint.Files

/-!
# Flags of the command line

A flag has a name, and perhaps a letter too. Some flags have a value. Which flags there are depends
on the place on the command line: in front of the name of a command or behind it.
-/

namespace Pinpoint.Command

/-- What a command line may ask for. -/
inductive Flag where
  | config
  | verbose
  | help
  | version
  | tree
  | path
  | json
  | diff
  | className
  | file
  | input
deriving Repr, DecidableEq

namespace Flag

def name : Flag → String
  | config => "config"
  | verbose => "verbose"
  | help => "help"
  | version => "version"
  | tree => "tree"
  | path => "path"
  | json => "json"
  | diff => "diff"
  | className => "class"
  | file => "file"
  | input => "input"

def letter? : Flag → Option Char
  | config => some 'c'
  | verbose => some 'v'
  | help => some 'h'
  | version => some 'V'
  | tree => some 't'
  | path => some 'p'
  | json => none
  | diff => some 'd'
  | className => none
  | file => some 'f'
  | input => some 'i'

def hasValue : Flag → Bool
  | config | tree | path | className | file | input => true
  | verbose | help | version | json | diff => false

/-- Whether a value is one for the flag: the name of a class is a text, and a path is not empty. -/
def accepts (f : Flag) (value : List UInt8) : Bool :=
  match f with
  | className => (String.fromUTF8? ⟨value.toArray⟩).isSome
  | _ => !value.isEmpty

/-- Whether the flag may stand more than once in one place. -/
def isRepeatable : Flag → Bool
  | verbose => true
  | _ => false

end Flag

/-- The places on a command line: in front of a command, or behind the name of one. -/
inductive Scope where
  | start
  | patch
  | locate
  | report
deriving Repr, DecidableEq

namespace Scope

/-- The flags of a place. -/
def flags : Scope → List Flag
  | start => [.config, .verbose, .help, .version]
  | patch => [.tree, .path, .json, .diff, .config, .verbose, .help]
  | locate => [.className, .file, .config, .verbose, .help]
  | report => [.input, .config, .verbose, .help]

/-- The commands with their names. -/
def commands : List (String × Scope) := [("patch", patch), ("locate", locate), ("report", report)]

/-- The flag of a name. Names cannot be cut short. -/
def ofName? (s : Scope) (name : List UInt8) : Option Flag :=
  s.flags.find? fun flag => flag.name.toUTF8.toList == name

/-- The flag of a letter. -/
def ofLetter? (s : Scope) (letter : UInt8) : Option Flag :=
  s.flags.find? fun flag => flag.letter?.any fun c => c.toNat == letter.toNat

end Scope

end Pinpoint.Command
