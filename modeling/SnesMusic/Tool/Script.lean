import SnesMusic.Report

/-!
# Scripts

What a command does with files and what it logs, as data: a `Script` says what comes next and leaves
it to others how files are read and written. A script can fail at any point; what was done before
stays.
-/
namespace SnesMusic.Tool

/-- A line of the log. -/
structure LogLine where
  severity : Severity
  text : String
  deriving DecidableEq, Repr

namespace LogLine

def error (text : String) : LogLine := { severity := .error, text }

def warning (text : String) : LogLine := { severity := .warning, text }

def information (text : String) : LogLine := { severity := .information, text }

def detail (text : String) : LogLine := { severity := .detail, text }

def ofNotice (n : Notice) : LogLine := { severity := n.severity, text := n.message }

/-- Details are shown on request only. -/
def isShown (verbose : Bool) (line : LogLine) : Bool := verbose || line.severity ≠ .detail

def severityName : Severity → String
  | .error => "ERROR"
  | .warning => "WARN"
  | .information => "INFO"
  | .detail => "DEBUG"

def render (line : LogLine) : String := severityName line.severity ++ " " ++ line.text

end LogLine

abbrev Content := Array UInt8

/-- Steps on files and the log, and the result or failure at their end. -/
inductive Script (α : Type) where
  | done (outcome : Except MusicError α)
  | log (line : LogLine) (next : Script α)
  | read (name : String) (next : Except HostFault Content → Script α)
  | write (name : String) (content : Content) (next : Except HostFault Unit → Script α)
  /-- Makes a folder and those around it, as far as they do not exist. -/
  | makeFolder (name : String) (next : Except HostFault Unit → Script α)

namespace Script

def pure {α : Type} (a : α) : Script α := .done (.ok a)

def fail {α : Type} (e : MusicError) : Script α := .done (.error e)

/-- Goes on with the result, if there is one. -/
def andThen {α β : Type} (f : α → Script β) : Script α → Script β
  | .done (.ok a) => f a
  | .done (.error e) => .done (.error e)
  | .log line next => .log line (next.andThen f)
  | .read name next => .read name fun content => (next content).andThen f
  | .write name content next => .write name content fun written => (next written).andThen f
  | .makeFolder name next => .makeFolder name fun made => (next made).andThen f

instance : Monad Script where
  pure := pure
  bind script f := andThen f script

def ofExcept {α : Type} (outcome : Except MusicError α) : Script α := .done outcome

/-- A step on a file that fails with the host's fault. -/
def ofHost {α : Type} : Except HostFault α → Script α
  | .ok a => .done (.ok a)
  | .error fault => .done (.error (.host fault))

def tell (line : LogLine) : Script Unit := .log line (pure ())

def tellAll : List LogLine → Script Unit
  | [] => pure ()
  | line :: rest => .log line (tellAll rest)

/-- The notices of a report, and its outcome. -/
def ofReport {α : Type} (r : Report α) : Script α :=
  (tellAll (r.notices.map .ofNotice)).andThen fun _ => ofExcept r.outcome

def readFile (name : String) : Script Content := .read name ofHost

def writeFile (name : String) (content : Content) : Script Unit := .write name content ofHost

def ensureFolder (name : String) : Script Unit := .makeFolder name ofHost

/-- The outcome as the result. -/
def attempt {α : Type} : Script α → Script (Except MusicError α)
  | .done outcome => .done (.ok outcome)
  | .log line next => .log line next.attempt
  | .read name next => .read name fun content => (next content).attempt
  | .write name content next => .write name content fun written => (next written).attempt
  | .makeFolder name next => .makeFolder name fun made => (next made).attempt

/-- Reads a file as text. -/
def readText (name : String) : Script String := do
  let content ← readFile name
  match String.fromUTF8? ⟨content⟩ with
  | some text => return text
  | none => fail (.host .notText)

end Script
end SnesMusic.Tool
