import SnesMusic.Assembly.Statement
import SnesMusic.Assembly.Vocabulary
import SnesMusic.Bytecode.Encode

/-!
# Writing songs as assembly

A song becomes a list of statements: for each segment a label, its channel table and the data of the
channels that are not empty.
-/
namespace SnesMusic.Assembly

open Text

/-- What is chosen when a song is written. -/
structure ExportOptions where
  /-- The song's label, by default made from its name. -/
  label : Option String := none
  /-- The stated address, by default the song's own. -/
  address : Option UInt16 := none
  /-- Whether comments about the song come first. -/
  comments : Bool := true
  deriving DecidableEq, Repr

def isLabelChar (c : Char) : Bool := c.isAlphanum || c == '_'

/-- A label made from a name: its ASCII letters, digits and underscores, not beginning with
a digit. -/
def songLabel (name : String) : String :=
  let kept := name.toList.filter isLabelChar
  match kept with
  | [] => "Song"
  | first :: _ => String.ofList (if first.isDigit then "Song".toList ++ kept else kept)

/-- A command by its name, by the shorthand of the instrument it sets, or as raw bytes. -/
def commandStatement (c : Command) : Statement :=
  let shorthand := if c.type? = some .setInstrument then instrumentName? c.first else none
  match shorthand with
  | some name => .invocation name []
  | none =>
    match commandName? c.opcode with
    | some name => .invocation name (c.used.map byteToken)
    | none => .bytes ((c.opcode :: c.used).map byteToken)

/-- The timing in front of a note. A duration of zero would read as the end marker and is set by
name. -/
def timingStatements (t : Timing) (n : Note) : List Statement :=
  match t.lead n.timing with
  | .none => []
  | .duration =>
    if n.duration = 0 then [.invocation "SetDuration" [byteToken 0]]
    else [.bytes [durationToken n.duration]]
  | .withVelocity =>
    [.invocation "SetDurationN" [durationToken n.duration, byteToken n.velocity]]

/-- A note by its name, or as a raw byte when it has none. -/
def noteStatement (n : Note) : Statement :=
  if isPitch n.pitch then .bytes [(noteToken? n.pitch).getD (byteToken n.pitch)]
  else .bytes [byteToken n.pitch]

/-- The statements of events up to the first end marker, which is written even where it
is missing. -/
def eventStatements (t : Timing) : List Event → List Statement
  | [] => [.bytes [endToken]]
  | .finish :: _ => [.bytes [endToken]]
  | .note n :: rest => timingStatements t n ++ noteStatement n :: eventStatements n.timing rest
  | .command c :: rest => commandStatement c :: eventStatements t rest
  | .call address repeats :: rest =>
    .invocation "CallSubroutine" [byteToken (LittleEndian.lowByte address),
      byteToken (LittleEndian.highByte address), byteToken repeats] :: eventStatements t rest

/-- The channel table and the channels of a segment. -/
def segmentStatements (segment : Segment) : List Statement :=
  let channels := segment.tracks.toList.zipIdx
  (channels.map fun (track, ch) =>
    .words [if track.empty then "$0000" else "." ++ Statement.channelLabel ++ toString ch]) ++
  channels.flatMap fun (track, ch) =>
    if track.empty then []
    else .blank :: .channel ch :: eventStatements {} track.events

/-- The comments about a song. -/
def songComments (song : Song) : List Statement := [
  .comment song.name,
  .comment ("Bank: " ++ song.bank.name),
  .comment s!"{song.segments.length} segment(s), {song.ticks} ticks",
  .blank]

/-- The pointers to the segments' channel tables; none when the song cannot be encoded. -/
def segmentPointers (song : Song) (base : UInt16) : List UInt16 :=
  match song.encode base with
  | .ok encoding => (LittleEndian.words encoding.data).take song.segments.length
  | .error _ => []

/-- The statements in front of a segment's channel table. -/
def segmentHeading (song : Song) (label : String) (base : UInt16) (pointer : Option UInt16)
    (index : Nat) : List Statement :=
  (if index = 0 then [.label label] else [.blank, .label s!"{label}_Segment{index}"]) ++
  [.setting addressName (wordToken base)] ++
  (match pointer with
    | some address => [.comment s!"segment {index} channel table at {wordToken address}"]
    | none => []) ++
  (if song.loopPoint = some index then [.comment "loop start"] else []) ++
  [.localLabel "Channels"]

/-- The statements of a song. -/
def songStatements (song : Song) (options : ExportOptions) : List Statement :=
  let label := options.label.getD (songLabel song.name)
  let base := options.address.getD song.address
  let pointers := segmentPointers song base
  (if options.comments then songComments song else []) ++
  (match song.loopPoint with
    | some segment => [.setting loopName (toString segment)]
    | none => []) ++
  song.segments.zipIdx.flatMap fun (segment, index) =>
    segmentHeading song label base pointers[index]? index ++ segmentStatements segment

/-- The text of statements, one on a line. -/
def text (statements : List Statement) : String :=
  String.join (statements.map fun s => s.render ++ "\n")

/-- Writes a song as assembly text. -/
def exportSong (song : Song) (options : ExportOptions) : String :=
  text (songStatements song options)

end SnesMusic.Assembly
