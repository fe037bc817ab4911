import SnesMusic.Audio.Brr
import SnesMusic.Bytecode.SongReader
import SnesMusic.Soundtrack.Basic

/-!
# Loading

Reads a soundtrack from an image. Song tables that cannot be read leave the game's own songs as
placeholders, so that every song keeps its id; songs beyond those of the game come after them, bank
by bank. Instruments and samples are required.
-/
namespace SnesMusic

open LittleEndian

/-! ### Song tables -/

/-- The words of a table that stands at `address`, up to the lowest song it points to: from there on
they would be song data. Pointers to places before the table do not count. -/
def tableLengthFrom (address lowest index : Nat) : List UInt16 → Nat
  | [] => index
  | entry :: rest =>
    if lowest ≤ address + index * 2 then index
    else
      let lowest := if entry ≠ 0 ∧ address < entry.toNat then min lowest entry.toNat else lowest
      tableLengthFrom address lowest (index + 1) rest

/-- How many words belong to the table at `address`. -/
def tableLength (entries : List UInt16) (address : UInt16) : Nat :=
  tableLengthFrom address.toNat 0x10000 0 entries

/-- A song to be read: its name and its address. -/
structure SongSlot where
  name : String
  address : UInt16
  deriving DecidableEq, Repr

namespace Uploads

/-- Reads a song, or stands in a silent one at its address. -/
def songOrPlaceholder (u : Uploads) (limits : Limits) (bank : Bank) (slot : SongSlot) : Told Song :=
  if slot.address = 0 then { value := Song.new slot.name bank }
  else
    let read := u.song limits bank slot.address
    match read.outcome with
    | .ok song => {
      value := { song with name := slot.name, modified := false }
      notices := read.notices }
    | .error e => {
      value := { Song.new slot.name bank with address := slot.address }
      notices := read.notices ++ [.unreadableSong slot.name slot.address bank e] }

end Uploads

/-- What a bank's song table holds: the game's own songs, the songs after them, and its length. -/
structure LoadedTable where
  vanilla : List Song := []
  custom : List Song := []
  slots : Nat := 0
  deriving DecidableEq, Repr

/-- The entries of a song table; none when it cannot be read. -/
def tableEntries (u : Uploads) (bank : Bank) (limit : Nat) : Told (List UInt16) :=
  match u.pointerTable bank.tableAddress limit with
  | .ok entries => { value := entries.take (tableLength entries bank.tableAddress) }
  | .error e => { value := [], notices := [.unreadableTable bank e] }

/-- The slots of the game's own songs in a bank. Those that the table lacks have no address. -/
def vanillaSongSlots (bank : Bank) (entries : List UInt16) : List SongSlot :=
  match bank.songRange with
  | none => []
  | some (first, last) =>
    (List.range (last + 1 - first)).map fun i => {
      name := ((vanillaSong? (first + i)).map (·.1)).getD "Unknown"
      address := entries.getD i 0 }

/-- The slots after those of the game, up to the first null word; `before` custom songs have names
already. -/
def customSongSlots (bank : Bank) (before : Nat) (entries : List UInt16) : List SongSlot :=
  (((entries.drop bank.vanillaSlots).takeWhile (· != 0)).zipIdx (before + 1)).map
    fun (address, number) => { name := s!"Custom Song {number}", address }

/-- Reads the song table of one of the game's banks. -/
def loadTable (image : Image) (config : Config) (bank : Bank) (before : Nat) : Told LoadedTable :=
  let u := Uploads.ofImage image bank.uploadBank
  let entries := tableEntries u bank maxTableEntries
  let read := Told.each (u.songOrPlaceholder config.limits bank)
  let vanilla := read (vanillaSongSlots bank entries.value)
  let custom := read (customSongSlots bank before entries.value)
  { value := { vanilla := vanilla.value, custom := custom.value, slots := entries.value.length }
    notices := entries.notices ++ vanilla.notices ++ custom.notices ++
      [.tableSlots bank entries.value.length] }

/-- Whether an expansion bank's first block is a song table of a size the bank admits. -/
def hasSongBlock (image : Image) (config : Config) (bank : Bank) : Bool :=
  match image.readBytes (image.locate bank.offset) 4 with
  | .ok [s₀, s₁, a₀, a₁] =>
    let size := word s₀ s₁
    word a₀ a₁ == bank.tableAddress && size != 0 && size.toNat ≤ config.limit bank
  | _ => false

/-- Reads the song table of an expansion bank. Null words are passed over and do not count. -/
def loadExpansion (image : Image) (config : Config) (bank : Bank) : Told LoadedTable :=
  if !hasSongBlock image config bank then { value := {}, notices := [.noSongBlock bank] }
  else
    let u := Uploads.ofImage image bank.uploadBank
    let entries := tableEntries u bank maxExpandedSongs
    let slots := ((entries.value.filter (· != 0)).zipIdx 1).map
      fun (address, number) => { name := s!"{bank.name} Song {number}", address : SongSlot }
    let custom := Told.each (u.songOrPlaceholder config.limits bank) slots
    { value := { custom := custom.value, slots := slots.length }
      notices := entries.notices ++ custom.notices }

/-- The songs of an image and the lengths of its song tables. -/
structure LoadedSongs where
  songs : List Song
  tableSlots : Bank → Nat

/-- Reads all song tables, those of the expansion banks only with the patch. -/
def loadSongs (image : Image) (config : Config) : Told LoadedSongs :=
  let overworld := loadTable image config .overworld 0
  let dungeon := loadTable image config .dungeon overworld.value.custom.length
  let credits := loadTable image config .credits
    (overworld.value.custom.length + dungeon.value.custom.length)
  let expansions : Told (LoadedTable × LoadedTable) :=
    match image.expandedHook? with
    | none => { value := ({}, {}) }
    | some hook =>
      let expanded := loadExpansion image config .overworldExpanded
      let auxiliary := loadExpansion image config .auxiliary
      { value := (expanded.value, auxiliary.value)
        notices := .expandedMusic hook :: expanded.notices ++ auxiliary.notices }
  let tables (bank : Bank) : LoadedTable := match bank with
    | .overworld => overworld.value
    | .dungeon => dungeon.value
    | .credits => credits.value
    | .overworldExpanded => expansions.value.1
    | .auxiliary => expansions.value.2
  { value := {
      songs := Bank.all.flatMap (fun b => (tables b).vanilla) ++
        Bank.all.flatMap (fun b => (tables b).custom)
      tableSlots := fun b => (tables b).slots }
    notices := overworld.notices ++ dungeon.notices ++ credits.notices ++ expansions.notices }

/-! ### Instruments -/

/-- The game's names of its instruments. -/
def instrumentNames : List String := [
  "Noise", "Rain", "Timpani", "Square wave", "Saw wave", "Clink", "Wobbly lead", "Compound saw",
  "Tweet", "Strings A", "Strings B", "Trombone", "Cymbal", "Ocarina", "Chimes", "Harp", "Splash",
  "Trumpet", "Horn", "Snare A", "Snare B", "Choir", "Flute", "Oof", "Piano"]

/-- An entry of the instrument table. Its pitch multiplier has the high byte first. -/
def Instrument.encode (i : Instrument) : List UInt8 :=
  [i.sample, i.attackDecay, i.sustain, i.gain,
    highByte i.pitchMultiplier, lowByte i.pitchMultiplier]

/-- Reads entries of the instrument table, one for each name. -/
def readInstruments : List String → List UInt8 → List Instrument
  | name :: names, sample :: attackDecay :: sustain :: gain :: high :: low :: rest =>
    ({ name, sample, gain, pitchMultiplier := word low high } : Instrument).withEnvelope attackDecay
      sustain :: readInstruments names rest
  | _, _ => []

def loadInstruments (common : Uploads) : Except MusicError (List Instrument) := do
  let data ← common.require instrumentTableAddress
  let table := data.take (instrumentCount * instrumentSize)
  if table.length < instrumentCount * instrumentSize then throw (.malformed .truncatedInstruments)
  return readInstruments instrumentNames table

/-! ### Samples -/

/-- Start and loop addresses of the samples in the directory. -/
def directoryEntries : List UInt8 → List (UInt16 × UInt16)
  | s₀ :: s₁ :: l₀ :: l₁ :: rest =>
    (word s₀ s₁, word l₀ l₁) :: directoryEntries rest
  | _ => []

/-- Reads a sample up to its last block, or as far as whole blocks go. The directory states where
the loop begins as an address; one before the sample counts as its beginning. -/
def sampleOf (name : String) (start loop : UInt16) (data : List UInt8) : Sample :=
  let length := (Brr.length? data).getD (data.length / Brr.blockSize * Brr.blockSize)
  let encoded := data.take length
  let decoded := Brr.decode encoded
  { name
    encoded
    pcm := decoded.pcm
    loopPoint := (loop.toNat - start.toNat) / Brr.blockSize * Brr.blockSamples
    loops := decoded.loopStart.isSome }

/-- Reads the sample of a directory entry. An entry without a sample stays empty. -/
def loadSample (common : Uploads) (directory : Nat) (index : Nat) (start loop : UInt16) :
    SampleEntry :=
  let name := "Sample " ++ Text.hexUpper 2 index
  let place := if start = 0 then none else common.offset? start
  match place with
  | none => { sample := { name } }
  | some offset =>
    let sample := sampleOf name start loop ((common.from? start).getD [])
    { sample
      slot := some {
        directory := directory + index * 4
        offset
        address := start
        capacity := sample.encoded.length } }

def loadSamples (common : Uploads) : Except MusicError (List SampleEntry) :=
  match common.offset? sampleDirectoryAddress with
  | none => .error (common.notFound sampleDirectoryAddress)
  | some directory => do
    let data ← common.require sampleDirectoryAddress
    return ((directoryEntries data).take maxSamples).zipIdx.map fun ((start, loop), index) =>
      loadSample common directory index start loop

/-! ### Soundtracks -/

/-- A soundtrack after an attempt to load one, and the failure if there was one. -/
structure Loading where
  soundtrack : Soundtrack
  notices : List Notice
  outcome : Except MusicError Unit

namespace Soundtrack

/-- Loads the image's music in place of what was there. A failure leaves what was read before it. -/
def load (s : Soundtrack) (image : Image) : Loading :=
  if !image.isLoaded then { soundtrack := s, notices := [], outcome := .error .imageNotLoaded }
  else
    let songs := loadSongs image s.config
    let withSongs : Soundtrack := {
      config := s.config
      loaded := s.loaded
      hook := image.expandedHook?
      songs := songs.value.songs
      tableSlots := songs.value.tableSlots }
    let common := Uploads.ofImage image .common
    match loadInstruments common with
    | .error e => { soundtrack := withSongs, notices := songs.notices, outcome := .error e }
    | .ok instruments =>
      let withInstruments := { withSongs with instruments }
      match loadSamples common with
      | .error e => { soundtrack := withInstruments, notices := songs.notices, outcome := .error e }
      | .ok entries => {
        soundtrack := { withInstruments with entries, loaded := true }
        notices := songs.notices ++
          [.loaded songs.value.songs.length instruments.length entries.length]
        outcome := .ok () }

end Soundtrack
end SnesMusic
