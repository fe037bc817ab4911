import SnesMusic.Bytecode.Size
import SnesMusic.Soundtrack.Load

/-!
# Saving

Writes what has changed back to the image: the song block of each dirty bank, the instrument table
and modified samples. All sizes are checked before anything is written; a failure after that leaves
what was written before it.
-/
namespace SnesMusic

open LittleEndian

/-- Songs may not reach past the end of the sound chip's memory. -/
def memorySize : Nat := 0x10000

/-- Room for song data from a bank's table to the end of memory. -/
def Bank.room (bank : Bank) : Nat := memorySize - bank.tableAddress.toNat

/-- The size of songs together. The first that cannot be encoded decides the error. -/
def songsSpace : List Song → Except MusicError Nat
  | [] => .ok 0
  | song :: rest => do
    let size ← song.requiredSpace
    let others ← songsSpace rest
    return size + others

/-! ### The songs of a bank, one after the other -/

/-- The songs with the addresses they get, the words of the song table and the bytes of the songs,
as far as they fit. -/
structure Placement where
  songs : List Song
  table : List UInt8
  body : List UInt8
  outcome : Except MusicError Unit

namespace Placement

def failed (songs : List Song) (e : MusicError) : Placement :=
  { songs, table := [], body := [], outcome := .error e }

/-- A song in front of those placed after it. -/
def cons (song : Song) (encoded : List UInt8) (p : Placement) : Placement :=
  { songs := song :: p.songs
    table := bytes song.address ++ p.table
    body := encoded ++ p.body
    outcome := p.outcome }

/-- The error of songs that would end at `address`. -/
def overflow (bank : Bank) (address : Nat) : MusicError :=
  .overflow (.bank bank) (address - bank.tableAddress.toNat) bank.room

/-- Places the songs of a bank from `address` on; songs of other banks are passed over. -/
def ofSongs (bank : Bank) (address : Nat) : List Song → Placement
  | [] => { songs := [], table := [], body := [], outcome := .ok () }
  | song :: rest =>
    if song.bank ≠ bank then
      let p := ofSongs bank address rest
      { p with songs := song :: p.songs }
    else if memorySize ≤ address then failed (song :: rest) (overflow bank address)
    else
      let placed := { song with address := UInt16.ofNat address }
      match song.encode placed.address with
      | .error e => failed (song :: rest) e
      | .ok encoding =>
        let finish := address + encoding.data.length
        if memorySize < finish then failed (song :: rest) (overflow bank finish)
        else cons placed encoding.data (ofSongs bank finish rest)

end Placement

/-! ### Steps of saving -/

/-- A soundtrack and an image while the one is saved to the other, and the failure if there
was one. -/
structure Saving where
  soundtrack : Soundtrack
  image : Image
  notices : List Notice := []
  outcome : Except MusicError Unit := .ok ()

namespace Saving

/-- Goes on saving, unless it has failed. -/
def andThen (s : Saving) (step : Saving → Saving) : Saving :=
  match s.outcome with
  | .ok () => step s
  | .error _ => s

/-- Takes a step for each element in order. -/
def each {α : Type} (s : Saving) (xs : List α) (step : α → Saving → Saving) : Saving :=
  xs.foldl (fun s x => s.andThen (step x)) s

def fail (s : Saving) (e : MusicError) : Saving := { s with outcome := .error e }

def tell (s : Saving) (n : Notice) : Saving := { s with notices := s.notices ++ [n] }

/-- Writes bytes to the image. -/
def write (s : Saving) (offset : Nat) (bytes : List UInt8) : Saving :=
  let w := s.image.tryWrite offset bytes
  { s with image := w.image, outcome := w.outcome }

/-- Updates the address bytes of a bank that has some. -/
def writePointer (s : Saving) (bank : Bank) : Saving :=
  match bank.pointerBytes with
  | none => s
  | some place =>
    let w := s.image.writePointer place bank.offset
    { s with image := w.image, outcome := w.outcome }

/-- Notes that a bank was saved. -/
def savedSongs (s : Saving) (bank : Bank) (count size : Nat) : Saving :=
  { s with soundtrack := { s.soundtrack with
      tableSlots := Bank.update s.soundtrack.tableSlots bank (count + 1) } }.tell
    (.savedSongs count bank size)

/-- Writes a bank's songs: one block of the song table, a null word and the songs, then the empty
block that ends the chain, then the bank's address where the game keeps it. -/
def saveSongs (bank : Bank) (s : Saving) : Saving :=
  let count := (s.soundtrack.songsIn bank).length
  let placement := Placement.ofSongs bank (bank.tableAddress.toNat + (count + 1) * 2)
    s.soundtrack.songs
  let s := { s with soundtrack := { s.soundtrack with songs := placement.songs } }
  match placement.outcome with
  | .error e => s.fail e
  | .ok () =>
    let payload := placement.table ++ [0, 0] ++ placement.body
    ((s.write (s.image.locate bank.offset)
        (Block.encode bank.tableAddress payload ++ [0, 0, 0, 0])).andThen
      (·.writePointer bank)).andThen (·.savedSongs bank count payload.length)

/-- Writes the instrument table. -/
def saveInstruments (s : Saving) : Saving :=
  let common := Uploads.ofImage s.image .common
  match common.offset? instrumentTableAddress with
  | none => s.fail (common.notFound instrumentTableAddress)
  | some offset =>
    let all := s.soundtrack.instruments
    let s := if all.length ≤ instrumentCount then s else s.tell (.surplusInstruments all.length)
    s.write offset ((all.take instrumentCount).flatMap Instrument.encode)

/-- The address that a sample loops to when it lies in a slot. -/
def loopAddress (slot : Slot) (sample : Sample) : UInt16 :=
  let block := if sample.loops then sample.loopPoint / Brr.blockSamples else 0
  slot.address + UInt16.ofNat (block * Brr.blockSize)

/-- Writes a modified sample and its loop address to the sample's slot. -/
def saveSample (entry : SampleEntry × Nat) (s : Saving) : Saving :=
  if !entry.1.modified then s
  else match entry.1.slot with
    | none => s.tell (.unplacedSample entry.2)
    | some slot =>
      (s.write slot.offset entry.1.sample.encoded).andThen
        (·.write (slot.directory + 2) (bytes (loopAddress slot entry.1.sample)))

end Saving

namespace Soundtrack

/-- The size of a bank's song table and songs. -/
def payloadSize (s : Soundtrack) (bank : Bank) : Except MusicError Nat := do
  let songs := s.songsIn bank
  let size ← songsSpace songs
  return (songs.length + 1) * 2 + size

/-- Checks that a bank's songs fit the bank and the memory. -/
def checkBank (s : Soundtrack) (bank : Bank) : Except MusicError Unit := do
  let needed ← s.payloadSize bank
  let limit := min (s.config.limit bank) bank.room
  if limit < needed then throw (.overflow (.bank bank) needed limit)

/-- Checks that a modified sample fits its slot. -/
def checkSample (entry : SampleEntry) : Except MusicError Unit :=
  match entry.modified, entry.slot with
  | true, some slot =>
    if slot.capacity < entry.sample.encoded.length then
      .error (.overflow .sampleSlot entry.sample.encoded.length slot.capacity)
    else .ok ()
  | _, _ => .ok ()

/-- All checks before saving, banks before samples. -/
def check (s : Soundtrack) : Except MusicError Unit := do
  s.dirtyBanks.forM s.checkBank
  s.entries.forM checkSample

/-- The soundtrack when everything has been saved. -/
def markSaved (s : Soundtrack) : Soundtrack :=
  { s with
    songs := s.songs.map fun song => { song with modified := false }
    entries := s.entries.map fun entry => { entry with modified := false }
    touched := fun _ => false
    instrumentsModified := false }

/-- Saves what has changed. -/
def save (s : Soundtrack) (image : Image) : Saving :=
  let start : Saving := { soundtrack := s, image }
  if !s.loaded then start.fail .nothingLoaded
  else if !image.isLoaded then start.fail .imageNotLoaded
  else match s.check with
    | .error e => start.fail e
    | .ok () =>
      let songs := start.each s.dirtyBanks Saving.saveSongs
      let instruments := songs.andThen fun saving =>
        if s.instrumentsModified then saving.saveInstruments else saving
      let samples := instruments.andThen fun saving =>
        saving.each s.entries.zipIdx Saving.saveSample
      samples.andThen fun saving => { saving with soundtrack := saving.soundtrack.markSaved }

end Soundtrack
end SnesMusic
