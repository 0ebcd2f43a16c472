import Pinpoint.Command.Run
import Pinpoint.Command.Terminal

/-!
# The command line program

The program does in the world, one by one, what the session of its arguments does.
-/

namespace Pinpoint.Main

open Command

/-- Why the system did not give a file. Its codes come with either sign. -/
def readError (e : IO.Error) : ReadError :=
  let coded (code : UInt32) (details : String) : ReadError :=
    let code := min code (0 - code)
    if code = 2 then .notFound
    else if code = 20 then .notDirectory
    else if code = 21 then .isDirectory
    else if code = 36 then .nameTooLong
    else .other (details ++ " (os error " ++ toString code ++ ")")
  match e with
  | .noFileOrDirectory _ code details => coded code details
  | .inappropriateType _ code details => coded code details
  | .permissionDenied _ code details => coded code details
  | .invalidArgument _ code details => coded code details
  | .resourceExhausted _ code details => coded code details
  | e => .other (toString e)

/-- Reads the text of a file. The name of a file is a text to the system. -/
def readText (file : Path) : IO (Except ReadError String) := do
  match String.fromUTF8? ⟨file.bytes.toArray⟩ with
  | none => return .error .notFound
  | some name =>
    try
      match String.fromUTF8? (← IO.FS.readBinFile name) with
      | some text => return .ok text
      | none => return .error .notText
    catch e => return .error (readError e)

/-- Does a session in the world. -/
def perform {α : Type} (note : Event → IO Unit) : Session α → IO α
  | .done result => return result
  | .reading file next => do perform note (next (← readText file))
  | .printing text next => do
    (← IO.getStdout).putStr text
    perform note next
  | .telling event next => do
    note event
    perform note next

/-- What an environment says about styles. -/
def styleWishes : IO StyleWishes := do
  return {
    force := ← IO.getEnv "CLICOLOR_FORCE"
    plain := ← IO.getEnv "NO_COLOR"
    onTerminal := ← IO.getEnv "CLICOLOR" }

/-- Does what an invocation asks for, and gives the exit code. -/
def invoke (i : Invocation) : IO Nat := do
  let wishes ← styleWishes
  let styled := wishes.showsStyles (← (← IO.getStdout).isTty)
  let filter := i.filter (← IO.getEnv "RUST_LOG")
  let stderr ← IO.getStderr
  let verdict ← perform
    (fun event => (filter.log wishes.showsLogStyles [event]).forM fun line =>
      stderr.putStr (line ++ "\n"))
    (i.session styled)
  stderr.putStr (Verdict.complaint styled verdict)
  return Verdict.code verdict

/-- Runs the program, and gives its exit code. -/
def run (arguments : List String) : IO UInt32 := do
  match Invocation.ofArguments (arguments.map fun argument => argument.toUTF8.toList) with
  | .ok i => return (← invoke i).toUInt32
  | .error halt =>
    (← IO.getStdout).putStr halt.response.output
    (← IO.getStderr).putStr halt.response.diagnostics
    return halt.response.code.toUInt32

end Pinpoint.Main

/-- The program. -/
def main (arguments : List String) : IO UInt32 := Pinpoint.Main.run arguments
