import SnesMusic.Audio.Brr
import SnesMusic.Audio.Wave
import SnesMusic.Soundtrack.Basic

/-!
# Editing

Access to songs, instruments and samples by index, counted from zero. Every change records what has
to be saved.
-/
namespace SnesMusic

/-- A sample made from sound. Its loop begins with the block that holds the first looped sample. -/
def Sample.ofWave (name : String) (wave : Wave) : Sample :=
  let start := wave.loopStart.map UInt32.toNat
  { name
    encoded := Brr.encode wave.samples start
    pcm := wave.samples
    loopPoint := (start.map fun s => s / Brr.blockSamples * Brr.blockSamples).getD 0
    loops := start.isSome }

/-- The notice of sound that was made for another rate than that of the sound chip. -/
def Wave.rateNotices (wave : Wave) (name : String) : List Notice :=
  if wave.rate = playbackRate then [] else [.sampleRate wave.rate name]

/-- Where a song was put, and the soundtrack with it. -/
structure PlacedSong where
  index : Nat
  replaced : Bool
  soundtrack : Soundtrack

namespace Soundtrack

/-! ### Songs -/

def song? (s : Soundtrack) (index : Nat) : Except MusicError Song :=
  match s.songs[index]? with
  | some song => .ok song
  | none => .error (.invalidIndex .song index)

/-- The song with an id; ids count from one. -/
def songById? (s : Soundtrack) (id : Nat) : Option Song :=
  match id with
  | 0 => none
  | index + 1 => s.songs[index]?

/-- Whether a song lives in an expansion bank. -/
def isExpansionSong (s : Soundtrack) (index : Nat) : Bool :=
  s.songs[index]?.any (·.bank.isExpansion)

/-- Adds a song at the end, as one to be saved; its index is the number of songs before. -/
def addSong (s : Soundtrack) (song : Song) : Soundtrack :=
  { s with songs := s.songs ++ [{ song with modified := true }] }

/-- Adds a song of one silent segment. -/
def createSong (s : Soundtrack) (name : String) (bank : Bank) : Soundtrack :=
  s.addSong (Song.new name bank)

/-- Adds a copy of a song. -/
def duplicateSong (s : Soundtrack) (index : Nat) : Except MusicError Soundtrack := do
  let song ← s.song? index
  return s.addSong { song with name := song.name ++ " (Copy)" }

/-- Marks a bank as one to be saved. -/
def touch (s : Soundtrack) (bank : Bank) : Soundtrack :=
  { s with touched := Bank.update s.touched bank true }

/-- Takes out a song. The game's own songs stay. -/
def deleteSong (s : Soundtrack) (index : Nat) : Except MusicError (Song × Soundtrack) := do
  let song ← s.song? index
  if isVanilla index then throw (.vanillaProtected index)
  return (song, { s with songs := s.songs.eraseIdx index }.touch song.bank)

/-- Changes a song. Both the bank it leaves and the one it goes to have to be saved. -/
def updateSong (s : Soundtrack) (index : Nat) (f : Song → Song) :
    Except MusicError Soundtrack := do
  let song ← s.song? index
  return { s with songs := s.songs.set index (f { song with modified := true }) }.touch song.bank

/-- The place of the first song with a name. -/
def indexOfName? (s : Soundtrack) (name : String) : Option Nat :=
  s.songs.findIdx? (·.name == name)

/-- Puts a song in place of another, which leaves it its bank and address. -/
def replaceSong (s : Soundtrack) (index : Nat) (song : Song) : Except MusicError Soundtrack :=
  s.updateSong index fun old =>
    { song with bank := old.bank, address := old.address, modified := true }

/-- Puts a song in place of the one with its name, if `replace` asks for it and there is one, or
adds it. -/
def placeSong (s : Soundtrack) (song : Song) (replace : Bool) : Except MusicError PlacedSong :=
  match if replace then s.indexOfName? song.name else none with
  | some index => do
    return { index, replaced := true, soundtrack := ← s.replaceSong index song }
  | none => .ok { index := s.songs.length, replaced := false, soundtrack := s.addSong song }

/-! ### Instruments -/

def instrument? (s : Soundtrack) (index : Nat) : Except MusicError Instrument :=
  match s.instruments[index]? with
  | some instrument => .ok instrument
  | none => .error (.invalidIndex .instrument index)

/-- Adds an instrument with a full envelope at normal pitch. -/
def createInstrument (s : Soundtrack) (name : String) : Soundtrack :=
  { s with
    instruments := s.instruments ++ [{
      name, attack := 15, decay := 7, sustainLevel := 7, pitchMultiplier := 0x1000 }]
    instrumentsModified := true }

def updateInstrument (s : Soundtrack) (index : Nat) (f : Instrument → Instrument) :
    Except MusicError Soundtrack := do
  let instrument ← s.instrument? index
  return { s with
    instruments := s.instruments.set index (f instrument)
    instrumentsModified := true }

/-! ### Samples -/

def entry? (s : Soundtrack) (index : Nat) : Except MusicError SampleEntry :=
  match s.entries[index]? with
  | some entry => .ok entry
  | none => .error (.invalidIndex .sample index)

def sample? (s : Soundtrack) (index : Nat) : Except MusicError Sample :=
  (s.entry? index).map (·.sample)

def updateSample (s : Soundtrack) (index : Nat) (f : Sample → Sample) :
    Except MusicError Soundtrack := do
  let entry ← s.entry? index
  let changed := { entry with sample := f entry.sample, modified := true }
  return { s with entries := s.entries.set index changed }

/-- Adds a sample from a sound file, without a place in the image. -/
def importSample (s : Soundtrack) (name : String) (file : List UInt8) : Report Soundtrack := do
  let wave ← Report.ofExcept (Wave.ofFile file)
  let added : SampleEntry := { sample := Sample.ofWave name wave, modified := true }
  { notices := wave.rateNotices name
    outcome := .ok { s with entries := s.entries ++ [added] } }

/-- Replaces a sample's sound by that of a file, keeping its name and place. -/
def replaceSample (s : Soundtrack) (index : Nat) (file : List UInt8) : Report Soundtrack := do
  let wave ← Report.ofExcept (Wave.ofFile file)
  let old ← Report.ofExcept (s.sample? index)
  { notices := wave.rateNotices old.name
    outcome := s.updateSample index fun sample => Sample.ofWave sample.name wave }

end Soundtrack
end SnesMusic
