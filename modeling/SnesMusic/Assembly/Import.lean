import SnesMusic.Assembly.Statement
import SnesMusic.Assembly.Vocabulary
import SnesMusic.Report
import SnesMusic.Song.Timing

/-!
# Reading songs from assembly

The statements of a text build a song: the first label names it, each further label begins a
segment, and data goes to the channel that was named last. Values that cannot be used are complained
about: a strict reading fails at the first complaint, a lenient one warns and leaves the value out.
-/
namespace SnesMusic.Assembly

/-- How a text is read. -/
structure ImportOptions where
  /-- Fail at the first complaint. -/
  strict : Bool := false
  /-- Warn of lines that are no statement of the dialect. -/
  verbose : Bool := true
  /-- The bank of the song. -/
  bank : Bank := .overworld
  deriving DecidableEq, Repr

/-- A song read from text, with what was noticed. `size` counts the bytes of the song's data and
tables that the text stands for. -/
structure Imported where
  song : Song
  warnings : List String
  errors : List String
  lines : Nat
  size : Nat
  address : Option UInt16
  deriving DecidableEq, Repr

/-- The song while its text is read. Segments that are complete, and warnings, are kept newest
first. -/
structure Importer where
  finished : List Segment := []
  current : Segment := Segment.silent
  channel : Fin 8 := 0
  label : Option String := none
  loopPoint : Option Nat := none
  address : Option UInt16 := none
  timing : Timing := {}
  emitted : Timing := {}
  line : Nat := 0
  warnings : List String := []
  size : Nat := 0
  deriving DecidableEq, Repr

namespace Importer

/-- A message with the line it belongs to. -/
def atLine (line : Nat) (message : String) : String := s!"Line {line}: {message}"

/-- Fails in a strict reading, warns in a lenient one. -/
def complain (options : ImportOptions) (s : Importer) (e : MusicError) :
    Except MusicError Importer :=
  if options.strict then .error e
  else .ok { s with warnings := atLine s.line e.message :: s.warnings }

def push (s : Importer) (e : Event) : Importer :=
  { s with current :=
    { tracks := s.current.tracks.set s.channel (s.current.tracks[s.channel].push e) } }

/-- Adds a note at the timing in force. -/
def note (s : Importer) (pitch : UInt8) : Importer :=
  { s.push (.note (s.timing.note s.emitted pitch)) with emitted := s.timing }

def count (s : Importer) (bytes : Nat) : Importer := { s with size := s.size + bytes }

/-- Every channel starts with its own timing. -/
def enterChannel (s : Importer) (channel : Fin 8) : Importer :=
  { s with channel, timing := {}, emitted := {} }

/-- The first label names the song, the others begin a segment. -/
def enterLabel (s : Importer) (name : String) : Importer :=
  match s.label with
  | none => { s with label := some name }
  | some _ =>
    { s with finished := s.current :: s.finished, current := Segment.silent }.enterChannel 0

/-! ### Values -/

/-- A byte as a number, or why it is none. -/
def byteValue (text : String) : Except Malformation UInt8 :=
  match number? text with
  | none => .error (.unknownValue text)
  | some value => if value < 256 then .ok (UInt8.ofNat value) else .error (.wideValue text)

/-- A duration by name or as a number; zero counts as a duration here. -/
def durationValue (text : String) : Except Malformation UInt8 :=
  match duration? text with
  | some duration => .ok duration
  | none =>
    match byteValue text with
    | .error cause => .error cause
    | .ok byte => if isDuration byte || byte = 0 then .ok byte else .error (.durationRange text)

def velocityValue (text : String) : Except Malformation UInt8 :=
  match byteValue text with
  | .error cause => .error cause
  | .ok byte => if isDuration byte then .ok byte else .error (.velocityRange text)

/-- Takes a value, or complains about it and takes none. -/
def take (options : ImportOptions) (s : Importer) (value : Except Malformation UInt8) :
    Except MusicError (Option UInt8 × Importer) :=
  match value with
  | .ok byte => .ok (some byte, s)
  | .error cause => (s.complain options (.malformed cause)).map fun s => (none, s)

/-! ### Data -/

/-- A byte of a channel's data. The parameters of a raw opcode are not tied to it. -/
def rawByte (options : ImportOptions) (s : Importer) (byte : UInt8) :
    Except MusicError Importer :=
  if byte = 0 then .ok (s.push .finish)
  else if isDuration byte then .ok { s with timing := { s.timing with duration := byte } }
  else if isPitch byte then .ok (s.note byte)
  else if isOpcode byte then .ok (s.push (Event.ofCommand (Command.ofParams byte [])))
  else s.complain options (.malformed (.meaninglessByte byte))

/-- A value of a channel's data: a note, a duration or a number. -/
def datum (options : ImportOptions) (s : Importer) (value : String) : Except MusicError Importer :=
  match pitch? value with
  | some pitch => .ok ((if pitch = 0 then s.push .finish else s.note pitch).count 1)
  | none =>
    match duration? value with
    | some duration => .ok ({ s with timing := { s.timing with duration } }.count 1)
    | none => do
      let (byte, s) ← s.take options (byteValue value)
      match byte with
      | none => return s
      | some byte => (s.count 1).rawByte options byte

def data (options : ImportOptions) (s : Importer) : List String → Except MusicError Importer
  | [] => .ok s
  | value :: rest => do (← s.datum options value).data options rest

/-! ### Settings and invocations -/

def setting (options : ImportOptions) (s : Importer) (name value : String) :
    Except MusicError Importer :=
  if name = addressName then
    match (number? value).filter (· < 0x10000) with
    | some address => .ok { s with address := some (UInt16.ofNat address) }
    | none => s.complain options (.malformed (.addressValue value))
  else if name = loopName then
    match number? value with
    | some segment => .ok { s with loopPoint := some segment }
    | none => s.complain options (.malformed (.loopValue value))
  else .ok s

def setDuration (options : ImportOptions) (s : Importer) (duration : String) :
    Except MusicError Importer := do
  let (duration, s) ← s.take options (durationValue duration)
  match duration with
  | some duration => return { s with timing := { s.timing with duration } }.count 1
  | none => return s

/-- Sets duration and velocity together, or neither. -/
def setTiming (options : ImportOptions) (s : Importer) (duration velocity : String) :
    Except MusicError Importer := do
  let (duration, s) ← s.take options (durationValue duration)
  let (velocity, s) ← s.take options (velocityValue velocity)
  match duration, velocity with
  | some duration, some velocity => return { s with timing := { duration, velocity } }.count 2
  | _, _ => return s

/-- The parameters of the command `name`, at most three, newest first in `taken`; none when one of
them was complained about. -/
def parameters (options : ImportOptions) (name : String) (taken : List UInt8) (s : Importer) :
    List String → Except MusicError (Option (List UInt8) × Importer)
  | [] => .ok (some taken.reverse, s)
  | argument :: rest => do
    let (byte, s) ← s.take options (byteValue argument)
    match byte with
    | none => return (none, s)
    | some byte =>
      if taken.length < 3 then parameters options name (byte :: taken) s rest
      else return (none, ← s.complain options (.malformed (.surplusParameters name)))

/-- Adds a command. A wrong number of parameters is complained about; missing ones are zero. -/
def command (options : ImportOptions) (s : Importer) (name : String) (opcode : UInt8)
    (arguments : List String) : Except MusicError Importer := do
  let (given, s) ← s.parameters options name [] arguments
  match given with
  | none => return s
  | some given =>
    let s ← if given.length = arity opcode then pure s
      else s.complain options (.malformed (.parameterCount name (arity opcode) given.length))
    return (s.push (Event.ofCommand (Command.ofParams opcode given))).count (1 + arity opcode)

/-- Does what an invocation says: sets an instrument or the timing, or adds a command. -/
def invoke (options : ImportOptions) (s : Importer) (name : String) (arguments : List String) :
    Except MusicError Importer :=
  match instrument? name with
  | some id => .ok ((s.push (.command (Command.ofParams firstOpcode [id]))).count 2)
  | none =>
    match name, arguments with
    | "SetDuration", duration :: _ => s.setDuration options duration
    | "SetDurationN", duration :: velocity :: _ => s.setTiming options duration velocity
    | _, _ =>
      match opcode? name with
      | some opcode => s.command options name opcode arguments
      | none => s.complain options (.unknownCall name)

/-! ### Lines -/

/-- Does what a statement says. Only a broken invocation fails in a lenient reading. -/
def step (options : ImportOptions) (s : Importer) : Statement → Except MusicError Importer
  | .blank | .comment _ | .localLabel _ => .ok s
  | .label name => .ok (s.enterLabel name)
  | .channel index => .ok (if h : index < 8 then s.enterChannel ⟨index, h⟩ else s)
  | .setting name value => s.setting options name value
  | .bytes values => s.data options values
  | .words values => .ok (s.count (2 * values.length))
  | .invocation name arguments => s.invoke options name arguments
  | .broken text => .error (.malformed (.brokenCall text))
  | .unrecognized text =>
    .ok (if options.verbose then
      { s with warnings := atLine s.line s!"Unrecognized: {text}" :: s.warnings } else s)

/-- Reads lines in order; `errors` holds the failures of lines so far, newest first. A failure ends
a strict reading. -/
def run (options : ImportOptions) (s : Importer) (errors : List String) :
    List (List Char) → Except MusicError (Importer × List String)
  | [] => .ok (s, errors)
  | line :: rest =>
    let s := { s with line := s.line + 1 }
    match s.step options (Statement.ofLine line) with
    | .ok s => s.run options errors rest
    | .error e =>
      if options.strict then .error e
      else s.run options (atLine s.line e.message :: errors) rest

/-- The song that was read. A loop to a segment that does not exist is dropped with a warning. -/
def finish (options : ImportOptions) (s : Importer) (errors : List String) (lines : Nat) :
    Imported :=
  let segments := (s.current :: s.finished).reverse
  let missing := s.loopPoint.filter (segments.length ≤ ·)
  let missingText (segment : Nat) : String := s!"Loop segment {segment} does not exist"
  { song := {
      name := s.label.getD ""
      segments
      loopPoint := if missing.isSome then none else s.loopPoint
      bank := options.bank
      address := s.address.getD 0 }
    warnings := s.warnings.reverse ++ missing.toList.map missingText
    errors := errors.reverse
    lines
    size := s.size
    address := s.address }

end Importer

/-- Reads a song from assembly text. Data before any channel label goes to the first channel. -/
def importSong (source : String) (options : ImportOptions) : Report Imported :=
  let lines := Text.lines source.toList
  match Importer.run options {} [] lines with
  | .error e => .fail e
  | .ok (s, errors) =>
    let result := s.finish options errors lines.length
    { notices := [.importedSong result.song.name result.lines result.size result.warnings.length
        result.errors.length]
      outcome := .ok result }

end SnesMusic.Assembly
