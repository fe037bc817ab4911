import SnesMusic.Tool.CommandLine

/-!
# The command line tool

Carries out scripts on the files of the host and prints their log.
-/
namespace SnesMusic.Tool

def hostFault : IO.Error → HostFault
  | .noFileOrDirectory .. => .notFound
  | .alreadyExists .. => .exists
  | e => .other (toString e)

/-- Does something with the files of the host. -/
def onHost {α : Type} (action : IO α) : IO (Except HostFault α) := do
  try
    return .ok (← action)
  catch e =>
    return .error (hostFault e)

/-- Carries out the steps of a script. -/
def Script.execute {α : Type} (verbose : Bool) : Script α → IO (Except MusicError α)
  | .done outcome => return outcome
  | .log line next => do
    if line.isShown verbose then IO.println line.render
    next.execute verbose
  | .read name next => do
    let content ← onHost do return (← IO.FS.readBinFile name).data
    (next content).execute verbose
  | .write name content next => do
    let written ← onHost (IO.FS.writeBinFile name ⟨content⟩)
    (next written).execute verbose
  | .makeFolder name next => do
    let made ← onHost (IO.FS.createDirAll name)
    (next made).execute verbose

end SnesMusic.Tool

open SnesMusic.Tool

def main (arguments : List String) : IO UInt32 := do
  match Invocation.ofArguments arguments with
  | .error fault =>
    IO.eprintln fault.message
    return 2
  | .ok invocation =>
    match ← invocation.command.script.execute invocation.verbose with
    | .ok () => return 0
    | .error e =>
      IO.println (LogLine.error e.message).render
      return 1
