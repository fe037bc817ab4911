import SnesMusic.Soundtrack.Edit
import SnesMusic.Tool.Filters
import SnesMusic.Tool.Music

/-!
# Listing the music of an image

Tables of the songs, the use of the banks, the instruments and the samples, with the events of each
song as details.
-/
namespace SnesMusic.Tool

open Text

namespace Inspect

structure Options where
  input : String
  filters : Filters := {}
  limits : List (Bank × Nat) := []
  deriving DecidableEq, Repr

/-! ### Events -/

/-- Bytes as a list in brackets. -/
def byteList (bytes : List UInt8) : String := "[" ++ ", ".intercalate (bytes.map hexByte) ++ "]"

def commandText (c : Command) : String :=
  let type := match c.type? with
    | some type => "Some(" ++ type.name ++ ")"
    | none => "None"
  type ++ " " ++ byteList c.used

def eventText : Event → String
  | .note n => padRight 4 n.name ++ " 0x" ++ hexByte n.duration
  | .command c => commandText c
  | .call address repeats => s!"CALL ${hexWord address} x{repeats.toNat}"
  | .finish => "END"

def eventLine (tick : Nat) (e : Event) : LogLine :=
  .detail ("      " ++ padLeft 6 (toString tick) ++ " " ++ eventText e)

/-- The events of a track with the ticks they begin at. Silent tracks are left out. -/
def trackLines (segment channel : Nat) (t : Track) : List LogLine :=
  if t.empty then []
  else
    .detail (s!"    SEGMENT {segment} CHANNEL {channel}: {t.events.length} events, " ++
      s!"{t.ticks} ticks") :: t.eventTicks.zipWith eventLine t.events

def songDetails (song : Song) : List LogLine :=
  song.segments.zipIdx.flatMap fun (segment, i) =>
    segment.tracks.toList.zipIdx.flatMap fun (track, channel) => trackLines i channel track

/-! ### Tables -/

def songHeading : LogLine :=
  .information "  ID  BANK       ADDR  SEG LOOP TICKS    SIZE   KIND     NAME"

/-- Whether a song is the game's own, of an expansion bank, or added. -/
def kind (s : Soundtrack) (index : Nat) : String :=
  if isVanilla index then "vanilla"
  else if s.isExpansionSong index then "expanded"
  else "custom"

/-- The encoded size of a song, if it can be encoded. -/
def sizeText (song : Song) : String :=
  match song.requiredSpace with
  | .ok size => toString size
  | .error _ => "?"

def optionalText : Option Nat → String
  | some value => toString value
  | none => "-"

def songLine (s : Soundtrack) (song : Song) (index : Nat) : LogLine :=
  .information ("  " ++ " ".intercalate [
    padRight 3 (toString (index + 1)), padRight 10 song.bank.name, "$" ++ hexWord song.address,
    padRight 3 (toString song.segments.length), padRight 4 (optionalText song.loopPoint),
    padRight 8 (toString song.ticks), padRight 6 (sizeText song), padRight 8 (kind s index),
    song.name])

def songLines (s : Soundtrack) (filters : Filters) : List LogLine :=
  s.songs.zipIdx.flatMap fun (song, index) =>
    if !filters.isEmpty && !filters.accepts song.name then []
    else songLine s song index :: songDetails song

def usageLine (bank : Bank) (usage : Usage) : LogLine :=
  .information ("  " ++ " ".intercalate [
    padRight 10 bank.name, padRight 6 (toString usage.used), padRight 6 (toString usage.total),
    padRight 6 (toString usage.free), padLeft 5 usage.percent.toTenths ++ "%"])

/-- The use of the banks that the image has. -/
def usageLines (s : Soundtrack) : List LogLine :=
  (Bank.all.filter fun b => s.hook.isSome || !b.isExpansion).flatMap fun bank =>
    let usage := s.usage bank
    usage.notices.map .ofNotice ++ usageLine bank usage.value :: adviceLines bank usage.value

def instrumentLine (i : Instrument) (index : Nat) : LogLine :=
  .information ("  " ++ " ".intercalate [
    padRight 3 (toString index), padRight 6 (toString i.sample.toNat), hexByte i.attackDecay,
    hexByte i.sustain, hexByte i.gain ++ "  ", "0x" ++ hexWord i.pitchMultiplier, i.name])

def instrumentLines (instruments : List Instrument) : List LogLine :=
  if instruments.isEmpty then []
  else .information "  ID  SAMPLE AD SR GAIN PITCH  NAME" ::
    instruments.zipIdx.map fun (i, index) => instrumentLine i index

def sampleLine (sample : Sample) (index : Nat) : LogLine :=
  .information ("  " ++ " ".intercalate [
    padRight 3 (toString index), "0x" ++ padRight 6 (hexLower sample.encoded.length),
    padRight 8 (toString sample.pcm.length),
    optionalText (if sample.loops then some sample.loopPoint else none)])

/-- The whole listing. -/
def lines (s : Soundtrack) (filters : Filters) : List LogLine :=
  (s.hook.toList.map fun hook =>
    .information s!"Expanded music patch: JSL ${hexUpper 6 hook}") ++
  [.information s!"Songs: {s.songs.length}", songHeading] ++ songLines s filters ++
  [.information "Bank usage:", .information "  BANK       USED   TOTAL  FREE   USAGE"] ++
  usageLines s ++
  [.information s!"Instruments: {s.instruments.length}"] ++ instrumentLines s.instruments ++
  [.information s!"Samples: {s.heard.length}",
    .information "  ID  BRRSIZE  SAMPLES  LOOP"] ++
  s.heard.map fun (sample, index) => sampleLine sample index

end Inspect

/-- Lists the music of an image. -/
def inspect (o : Inspect.Options) : Script Unit := do
  let (_, music) ← loadMusic o.input o.limits
  Script.tellAll (Inspect.lines music o.filters)

end SnesMusic.Tool
