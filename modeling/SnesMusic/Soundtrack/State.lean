import SnesMusic.Json.Printer
import SnesMusic.Json.Reader
import SnesMusic.Json.Record
import SnesMusic.Soundtrack.Basic

/-!
# Saved states

The music of a soundtrack as a JSON text: songs, instruments, samples and the lengths of the song
tables. Each type has its value and a reader of it. A soundtrack that is restored has nothing to
save but the songs that were marked so in the text.
-/
namespace SnesMusic

open Json

/-- Counts and positions have 64 bits. -/
def countLimit : Nat := UInt64.size

def byte? (v : Value) : Option UInt8 := (v.nat? 256).map UInt8.ofNat

def word? (v : Value) : Option UInt16 := (v.nat? 0x10000).map UInt16.ofNat

def count? (v : Value) : Option Nat := v.nat? countLimit

/-! ### Events -/

namespace Note

def fields : List Field :=
  [{ name := "pitch" }, { name := "duration" }, { name := "velocity" },
    .withDefault "has_duration_prefix" (.bool false)]

def toMembers (n : Note) : List (String × Value) :=
  [("pitch", .nat n.pitch.toNat), ("duration", .nat n.duration.toNat),
    ("velocity", .nat n.velocity.toNat), ("has_duration_prefix", .bool n.timed)]

def ofValue? (v : Value) : Option Note :=
  match v.fields? fields with
  | some [pitch, duration, velocity, timed] => do
    let pitch ← byte? pitch
    let duration ← byte? duration
    let velocity ← byte? velocity
    let timed ← timed.bool?
    return { pitch, duration, velocity, timed }
  | _ => none

end Note

namespace Command

def fields : List Field := [{ name := "opcode" }, { name := "params" }]

def toMembers (c : Command) : List (String × Value) :=
  [("opcode", .nat c.opcode.toNat), ("params", .array (c.params.map fun p => .nat p.toNat))]

/-- Reads a command. It has exactly three parameters, whatever its arity. -/
def ofValue? (v : Value) : Option Command :=
  match v.fields? fields with
  | some [opcode, params] => do
    let opcode ← byte? opcode
    let params ← params.list? byte?
    match params with
    | [first, second, third] => return { opcode, first, second, third }
    | _ => none
  | _ => none

end Command

namespace Event

def callFields : List Field := [{ name := "address" }, { name := "repeat" }]

/-- Reads the address and the count of a subroutine call. -/
def callOfValue? (v : Value) : Option Event :=
  match v.fields? callFields with
  | some [address, repeats] => do return .call (← word? address) (← byte? repeats)
  | _ => none

def toValue : Event → Value
  | .note n => .record (("type", .text "note") :: n.toMembers)
  | .command c => .record (("type", .text "command") :: c.toMembers)
  | .call address repeats => .record [("type", .text "subroutine_call"),
    ("address", .nat address.toNat), ("repeat", .nat repeats.toNat)]
  | .finish => .record [("type", .text "end")]

/-- How deep an event may nest: the eight levels around it are part of the 127 of a text. -/
def levels : Nat := 119

/-- Reads an event. Events are read as a whole before their kind is known, so that all of their
members have to make sense, those that are ignored too. -/
def ofValue? (v : Value) : Option Event :=
  if !v.isSound levels then none
  else match v.tagged? "type" with
    | some ("note", body) => (Note.ofValue? body).map .note
    | some ("command", body) => (Command.ofValue? body).map .command
    | some ("subroutine_call", body) => callOfValue? body
    | some ("end", .object _) => some .finish
    | some ("end", .array []) => some .finish
    | _ => none

end Event

/-! ### Songs -/

namespace Track

def fields : List Field := [{ name := "events" }, { name := "is_empty" }]

def toValue (t : Track) : Value :=
  .record [("events", .array (t.events.map Event.toValue)), ("is_empty", .bool t.empty)]

def ofValue? (v : Value) : Option Track :=
  match v.fields? fields with
  | some [events, empty] => do
    let events ← events.list? Event.ofValue?
    let empty ← empty.bool?
    return { events, empty }
  | _ => none

end Track

namespace Segment

def fields : List Field := [{ name := "tracks" }]

def toValue (s : Segment) : Value :=
  .record [("tracks", .array (s.tracks.toList.map Track.toValue))]

/-- Reads a segment. It has a track for each of the eight channels. -/
def ofValue? (v : Value) : Option Segment :=
  match v.fields? fields with
  | some [tracks] => do
    let tracks ← tracks.list? Track.ofValue?
    if eight : tracks.toArray.size = 8 then return { tracks := ⟨tracks.toArray, eight⟩ }
    else none
  | _ => none

end Segment

/-- Reads a bank: its tag, or an object with the tag as its only key and no content. -/
def Bank.ofValue? : Value → Option Bank
  | .string (some tag) => Bank.ofTag? tag
  | .object [(some tag, .null)] => Bank.ofTag? tag
  | _ => none

namespace Song

def fields : List Field :=
  [{ name := "name" }, { name := "segments" }, { name := "loop_point", absent := some .null },
    { name := "bank" }, { name := "rom_address" }, .withDefault "modified" (.bool false)]

def toValue (s : Song) : Value :=
  .record [
    ("name", .text s.name), ("segments", .array (s.segments.map Segment.toValue)),
    ("loop_point", (s.loopPoint.map Value.nat).getD .null), ("bank", .text s.bank.tag),
    ("rom_address", .nat s.address.toNat), ("modified", .bool s.modified)]

def ofValue? (v : Value) : Option Song :=
  match v.fields? fields with
  | some [name, segments, loopPoint, bank, address, modified] => do
    let name ← name.text?
    let segments ← segments.list? Segment.ofValue?
    let loopPoint ← loopPoint.option? count?
    let bank ← Bank.ofValue? bank
    let address ← word? address
    let modified ← modified.bool?
    return { name, segments, loopPoint, bank, address, modified }
  | _ => none

end Song

/-! ### Instruments and samples -/

namespace Instrument

def fields : List Field :=
  [{ name := "name" }, { name := "sample_index" }, { name := "attack" }, { name := "decay" },
    { name := "sustain_level" }, { name := "sustain_rate" }, { name := "gain" },
    { name := "pitch_mult" }]

def toValue (i : Instrument) : Value :=
  .record [
    ("name", .text i.name), ("sample_index", .nat i.sample.toNat),
    ("attack", .nat i.attack.toNat), ("decay", .nat i.decay.toNat),
    ("sustain_level", .nat i.sustainLevel.toNat), ("sustain_rate", .nat i.sustainRate.toNat),
    ("gain", .nat i.gain.toNat), ("pitch_mult", .nat i.pitchMultiplier.toNat)]

def ofValue? (v : Value) : Option Instrument :=
  match v.fields? fields with
  | some [name, sample, attack, decay, sustainLevel, sustainRate, gain, pitchMultiplier] => do
    let name ← name.text?
    let sample ← byte? sample
    let attack ← byte? attack
    let decay ← byte? decay
    let sustainLevel ← byte? sustainLevel
    let sustainRate ← byte? sustainRate
    let gain ← byte? gain
    let pitchMultiplier ← word? pitchMultiplier
    return { name, sample, attack, decay, sustainLevel, sustainRate, gain, pitchMultiplier }
  | _ => none

end Instrument

namespace Sample

def fields : List Field :=
  [{ name := "name" }, { name := "brr_data" }, { name := "pcm_data" }, { name := "loop_point" },
    { name := "loops" }]

def toValue (s : Sample) : Value :=
  .record [
    ("name", .text s.name), ("brr_data", .array (s.encoded.map fun b => .nat b.toNat)),
    ("pcm_data", .array (s.pcm.map fun p => .int p.toInt)), ("loop_point", .nat s.loopPoint),
    ("loops", .bool s.loops)]

def ofValue? (v : Value) : Option Sample :=
  match v.fields? fields with
  | some [name, encoded, pcm, loopPoint, loops] => do
    let name ← name.text?
    let encoded ← encoded.list? byte?
    let pcm ← pcm.list? fun p => (p.int? 16).map Int16.ofInt
    let loopPoint ← count? loopPoint
    let loops ← loops.bool?
    return { name, encoded, pcm, loopPoint, loops }
  | _ => none

end Sample

/-! ### Soundtracks -/

/-- The part of a soundtrack that is kept as text. -/
structure State where
  songs : List Song
  instruments : List Instrument
  samples : List Sample
  tableSlots : Bank → Nat

namespace State

/-- The field that holds the length of a bank's song table. -/
def slotsField : Bank → String
  | .overworld => "overworld_song_count"
  | .dungeon => "dungeon_song_count"
  | .credits => "credits_song_count"
  | .overworldExpanded => "expanded_song_count"
  | .auxiliary => "auxiliary_song_count"

def fields : List Field :=
  [{ name := "songs" }, { name := "instruments" }, { name := "samples" }] ++
    Bank.all.map fun b => .withDefault (slotsField b) (.nat 0)

def toValue (s : State) : Value :=
  .record ([
    ("songs", .array (s.songs.map Song.toValue)),
    ("instruments", .array (s.instruments.map Instrument.toValue)),
    ("samples", .array (s.samples.map Sample.toValue))] ++
    Bank.all.map fun b => (slotsField b, .nat (s.tableSlots b)))

def ofValue? (v : Value) : Option State :=
  match v.fields? fields with
  | some [songs, instruments, samples, overworld, dungeon, credits, expanded, auxiliary] => do
    let songs ← songs.list? Song.ofValue?
    let instruments ← instruments.list? Instrument.ofValue?
    let samples ← samples.list? Sample.ofValue?
    let overworld ← count? overworld
    let dungeon ← count? dungeon
    let credits ← count? credits
    let expanded ← count? expanded
    let auxiliary ← count? auxiliary
    return {
      songs, instruments, samples
      tableSlots := fun
        | .overworld => overworld
        | .dungeon => dungeon
        | .credits => credits
        | .overworldExpanded => expanded
        | .auxiliary => auxiliary }
  | _ => none

end State

namespace Soundtrack

def state (s : Soundtrack) : State :=
  { songs := s.songs
    instruments := s.instruments
    samples := s.samples
    tableSlots := s.tableSlots }

/-- The soundtrack as a text. -/
def toJson (s : Soundtrack) : String := s.state.toValue.toText

/-- Replaces the music by that of a state. Its samples have no place in an image. -/
def restore (s : Soundtrack) (state : State) : Soundtrack :=
  { config := s.config
    hook := s.hook
    songs := state.songs
    instruments := state.instruments
    entries := state.samples.map fun sample => { sample }
    tableSlots := state.tableSlots
    loaded := true }

/-- Replaces the music by that of a text. -/
def loadJson (s : Soundtrack) (text : String) : Except MusicError Soundtrack :=
  match Value.ofText? text >>= State.ofValue? with
  | some state => .ok (s.restore state)
  | none => .error .state

end Soundtrack
end SnesMusic
