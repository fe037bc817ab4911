import SnesMusic.Bank

/-!
# Songs

A song is a list of segments, a segment gives each of the eight channels a track, and a track is a
list of events: notes, commands, subroutine calls and the end marker. Ticks are counted exactly.
-/
namespace SnesMusic

/-! ### Notes -/

/-- The pitch of a tie, which prolongs the note before it. -/
def tiePitch : UInt8 := 0xC8

/-- The pitch of a rest. -/
def restPitch : UInt8 := 0xC9

def lowestPitch : UInt8 := 0x80

def highestPitch : UInt8 := 0xC7

def firstOpcode : UInt8 := 0xE0

/-- The opcode that calls a subroutine. -/
def callOpcode : UInt8 := 0xEF

/-- A byte that sets the duration or, after one that does, the velocity. -/
def isDuration (byte : UInt8) : Bool := 0x01 ≤ byte && byte < 0x80

/-- A byte that plays a note, a tie or a rest. -/
def isPitch (byte : UInt8) : Bool := lowestPitch ≤ byte && byte ≤ restPitch

/-- A byte that begins a command. -/
def isOpcode (byte : UInt8) : Bool := firstOpcode ≤ byte

/-- A note with the timing it is played at. `timed` records whether duration or velocity differ from
those of the note before, so that the encoded note has to state them. -/
structure Note where
  pitch : UInt8
  duration : UInt8
  velocity : UInt8 := 0
  timed : Bool := false
  deriving DecidableEq, Repr

namespace Note

def isTone (n : Note) : Bool := lowestPitch ≤ n.pitch && n.pitch ≤ highestPitch

def isTie (n : Note) : Bool := n.pitch == tiePitch

def isRest (n : Note) : Bool := n.pitch == restPitch

/-- One to six for tones, zero for everything else. -/
def octave (n : Note) : Nat :=
  if n.isTone then (n.pitch.toNat - lowestPitch.toNat) / 12 + 1 else 0

/-- Steps above C, zero for everything but tones. -/
def semitone (n : Note) : Nat :=
  if n.isTone then (n.pitch.toNat - lowestPitch.toNat) % 12 else 0

def stepNames : List String := ["C", "C#", "D", "D#", "E", "F", "F#", "G", "G#", "A", "A#", "B"]

def name (n : Note) : String :=
  if n.isTie then "---"
  else if n.isRest then "..."
  else if n.isTone then stepNames.getD n.semitone "" ++ toString n.octave
  else "???"

end Note

/-! ### Commands -/

/-- The commands with a meaning, in the order of their opcodes from 0xE0 on. -/
inductive CommandType where
  | setInstrument
  | setPan
  | panFade
  | vibratoOn
  | vibratoOff
  | setMasterVolume
  | masterVolumeFade
  | setTempo
  | tempoFade
  | globalTranspose
  | channelTranspose
  | tremoloOn
  | tremoloOff
  | setChannelVolume
  | channelVolumeFade
  | callSubroutine
  | vibratoFade
  | pitchEnvelopeTo
  | pitchEnvelopeFrom
  | pitchEnvelopeOff
  | tuning
  | echoVBits
  | echoOff
  | echoParams
  | echoVolumeFade
  | pitchSlide
  | percussionPatch
  deriving DecidableEq, Repr

namespace CommandType

def all : List CommandType := [
  setInstrument, setPan, panFade, vibratoOn, vibratoOff, setMasterVolume, masterVolumeFade,
  setTempo, tempoFade, globalTranspose, channelTranspose, tremoloOn, tremoloOff, setChannelVolume,
  channelVolumeFade, callSubroutine, vibratoFade, pitchEnvelopeTo, pitchEnvelopeFrom,
  pitchEnvelopeOff, tuning, echoVBits, echoOff, echoParams, echoVolumeFade, pitchSlide,
  percussionPatch]

/-- The command's name. -/
def name : CommandType → String
  | .setInstrument => "SetInstrument"
  | .setPan => "SetPan"
  | .panFade => "PanFade"
  | .vibratoOn => "VibratoOn"
  | .vibratoOff => "VibratoOff"
  | .setMasterVolume => "SetMasterVolume"
  | .masterVolumeFade => "MasterVolumeFade"
  | .setTempo => "SetTempo"
  | .tempoFade => "TempoFade"
  | .globalTranspose => "GlobalTranspose"
  | .channelTranspose => "ChannelTranspose"
  | .tremoloOn => "TremoloOn"
  | .tremoloOff => "TremoloOff"
  | .setChannelVolume => "SetChannelVolume"
  | .channelVolumeFade => "ChannelVolumeFade"
  | .callSubroutine => "CallSubroutine"
  | .vibratoFade => "VibratoFade"
  | .pitchEnvelopeTo => "PitchEnvelopeTo"
  | .pitchEnvelopeFrom => "PitchEnvelopeFrom"
  | .pitchEnvelopeOff => "PitchEnvelopeOff"
  | .tuning => "Tuning"
  | .echoVBits => "EchoVBits"
  | .echoOff => "EchoOff"
  | .echoParams => "EchoParams"
  | .echoVolumeFade => "EchoVolumeFade"
  | .pitchSlide => "PitchSlide"
  | .percussionPatch => "PercussionPatch"

def ofOpcode? (opcode : UInt8) : Option CommandType :=
  if isOpcode opcode then all[opcode.toNat - firstOpcode.toNat]? else none

end CommandType

/-- Parameter bytes of the opcodes from 0xE0 on;
the last five opcodes have no meaning but a length. -/
def arities : List Nat := [
  1, 1, 2, 3, 0, 1, 2, 1, 2, 1, 1, 3, 0, 1, 2, 3,
  1, 3, 3, 0, 1, 3, 0, 3, 3, 3, 1, 2, 0, 0, 0, 0]

/-- Number of parameter bytes that follow an opcode. -/
def arity (opcode : UInt8) : Nat :=
  if isOpcode opcode then arities.getD (opcode.toNat - firstOpcode.toNat) 0 else 0

theorem arity_le (opcode : UInt8) : arity opcode ≤ 3 := by
  have table : ∀ i, arities.getD i 0 ≤ 3 := by
    intro i
    by_cases h : i < arities.length
    · have : ∀ j : Fin arities.length, arities.getD j 0 ≤ 3 := by decide
      exact this ⟨i, h⟩
    · simp [List.getD, List.getElem?_eq_none (Nat.le_of_not_lt h)]
  rw [arity]
  split
  · exact table _
  · omega

/-- An opcode with room for three parameters, of which its arity says how many count. -/
structure Command where
  opcode : UInt8
  first : UInt8 := 0
  second : UInt8 := 0
  third : UInt8 := 0
  deriving DecidableEq, Repr

namespace Command

def params (c : Command) : List UInt8 := [c.first, c.second, c.third]

/-- A command with the given parameters.
Those beyond the arity are dropped, missing ones are zero. -/
def ofParams (opcode : UInt8) (params : List UInt8) : Command :=
  let kept := params.take (arity opcode)
  { opcode, first := kept.getD 0 0, second := kept.getD 1 0, third := kept.getD 2 0 }

/-- The parameters that count. -/
def used (c : Command) : List UInt8 := c.params.take (arity c.opcode)

def type? (c : Command) : Option CommandType := CommandType.ofOpcode? c.opcode

def isCall (c : Command) : Bool := c.opcode == callOpcode

/-- The address a call goes to. -/
def target (c : Command) : UInt16 := LittleEndian.word c.first c.second

/-- How often a call is played. -/
def repeats (c : Command) : UInt8 := c.third

theorem length_used (c : Command) : c.used.length = arity c.opcode := by
  have := arity_le c.opcode
  simp [used, params]
  omega

end Command

/-! ### Events and tracks -/

/-- What a track is made of. -/
inductive Event where
  | note (n : Note)
  | command (c : Command)
  | call (address : UInt16) (repeats : UInt8)
  | finish
  deriving DecidableEq, Repr

namespace Event

/-- The event of a command; subroutine calls have their own. -/
def ofCommand (c : Command) : Event :=
  if c.isCall then .call c.target c.repeats else .command c

/-- Ticks until the next event. A tie prolongs the note before it and takes none. -/
def ticks : Event → Nat
  | .note n => if n.isTie then 0 else n.duration.toNat
  | _ => 0

end Event

/-- The events of one channel. An `empty` track is silent and takes no room when encoded, whatever
events it carries. -/
structure Track where
  events : List Event
  empty : Bool
  deriving DecidableEq, Repr

namespace Track

def silent : Track := { events := [], empty := true }

def ofEvents (events : List Event) : Track := { events, empty := false }

/-- The ticks of all events. Sums of ticks are exact, however long the track. -/
def ticks (t : Track) : Nat := t.events.foldr (fun e later => e.ticks + later) 0

/-- The tick at which each event begins, counted from `start`. -/
def startTicks (start : Nat) : List Event → List Nat
  | [] => []
  | e :: rest => start :: startTicks (start + e.ticks) rest

/-- The tick at which each event of the track begins. -/
def eventTicks (t : Track) : List Nat := startTicks 0 t.events

def push (t : Track) (e : Event) : Track := { events := t.events ++ [e], empty := false }

/-- Puts an event in front of the one at `index`; nothing when there is no such place. -/
def insert? (t : Track) (index : Nat) (e : Event) : Option Track :=
  if index ≤ t.events.length then
    some { events := t.events.insertIdx index e, empty := false }
  else none

/-- Takes out the event at `index`. -/
def remove? (t : Track) (index : Nat) : Option (Event × Track) :=
  t.events[index]?.map fun e => (e, { t with events := t.events.eraseIdx index })

def endsWithFinish (t : Track) : Bool := t.events.getLast? == some .finish

end Track

/-- One track for each channel, played together. -/
structure Segment where
  tracks : Vector Track 8
  deriving DecidableEq, Repr

namespace Segment

def silent : Segment := { tracks := Vector.replicate 8 Track.silent }

/-- As long as its longest track. -/
def ticks (s : Segment) : Nat := (s.tracks.toList.map Track.ticks).foldl max 0

end Segment

/-- A song: its segments in order, the segment it loops to, and where it belongs. -/
structure Song where
  name : String
  segments : List Segment
  loopPoint : Option Nat
  bank : Bank
  address : UInt16
  modified : Bool := false
  deriving DecidableEq, Repr

namespace Song

/-- A song of one silent segment. -/
def new (name : String) (bank : Bank) : Song :=
  { name, segments := [Segment.silent], loopPoint := none, bank, address := 0 }

def loops (s : Song) : Bool := s.loopPoint.isSome

/-- The ticks of its segments, played once. As for tracks, the sum is exact. -/
def ticks (s : Song) : Nat := s.segments.foldr (fun seg later => seg.ticks + later) 0

/-- All tracks in the order they are encoded: segment by segment, channel by channel. -/
def tracks (s : Song) : List Track := s.segments.flatMap (·.tracks.toList)

/-- Applies a change to the track at a segment and channel; nothing when there is none. -/
def modifyTrack? (s : Song) (segment channel : Nat) (f : Track → Track) : Option Song :=
  match s.segments[segment]? with
  | none => none
  | some seg =>
    if h : channel < 8 then
      let changed : Segment := { tracks := seg.tracks.set channel (f seg.tracks[channel]) }
      some { s with segments := s.segments.set segment changed }
    else none

def track? (s : Song) (segment channel : Nat) : Option Track :=
  s.segments[segment]?.bind (·.tracks[channel]?)

end Song

end SnesMusic
