import SnesMusic.Bytecode.Fragment
import SnesMusic.Song.Instrument

/-!
# Soundtracks

All music of an image: the songs of every bank, the instrument table and the samples, with what has
been changed since it was loaded or saved.
-/
namespace SnesMusic

/-- Capacities of the banks in bytes, and bounds on reading. -/
structure Config where
  limit : Bank → Nat := Bank.defaultLimit
  limits : Limits := {}

namespace Config

def withLimit (c : Config) (bank : Bank) (bytes : Nat) : Config :=
  { c with limit := Bank.update c.limit bank bytes }

/-- Capacities set one after the other; the last one for a bank counts. -/
def ofLimits (limits : List (Bank × Nat)) : Config :=
  limits.foldl (fun c (bank, bytes) => c.withLimit bank bytes) {}

end Config

/-- Number of instruments of the game. -/
def instrumentCount : Nat := 25

/-- Bytes of an entry of the instrument table. -/
def instrumentSize : Nat := 6

/-- Entries of the sample directory that are looked at. -/
def maxSamples : Nat := 64

/-- Entries of a song table that are looked at. -/
def maxTableEntries : Nat := 64

/-- Entries of an expansion bank's song table that are looked at. -/
def maxExpandedSongs : Nat := 16

/-- Where a sample was found: its directory entry and its bytes in the image, its address, and how
many bytes it may take. -/
structure Slot where
  directory : Nat
  offset : Nat
  address : UInt16
  capacity : Nat
  deriving DecidableEq, Repr

/-- A sample with the place it was loaded from, if any. -/
structure SampleEntry where
  sample : Sample
  slot : Option Slot := none
  modified : Bool := false
  deriving DecidableEq, Repr

structure Soundtrack where
  config : Config := {}
  songs : List Song := []
  instruments : List Instrument := []
  entries : List SampleEntry := []
  /-- Number of slots of each bank's song table. -/
  tableSlots : Bank → Nat := fun _ => 0
  loaded : Bool := false
  /-- The address that the expanded music patch jumps to, when the image has it. -/
  hook : Option Nat := none
  /-- Banks that lost or held a song that was changed. -/
  touched : Bank → Bool := fun _ => false
  instrumentsModified : Bool := false

namespace Soundtrack

/-- A soundtrack without music. -/
def new (config : Config) : Soundtrack := { config }

def samples (s : Soundtrack) : List Sample := s.entries.map (·.sample)

def songsIn (s : Soundtrack) (bank : Bank) : List Song := s.songs.filter (·.bank == bank)

/-- Whether a bank has songs to save. -/
def isDirty (s : Soundtrack) (bank : Bank) : Bool :=
  s.touched bank || s.songs.any fun song => song.modified && song.bank == bank

/-- The banks to save, in their fixed order. -/
def dirtyBanks (s : Soundtrack) : List Bank := Bank.all.filter s.isDirty

def hasModifications (s : Soundtrack) : Bool :=
  s.instrumentsModified || s.entries.any (·.modified) || !s.dirtyBanks.isEmpty

end Soundtrack
end SnesMusic
