import SnesMusic.Proofs.Bytecode.Reencoding
import SnesMusic.Proofs.Soundtrack.InstrumentTable
import SnesMusic.Proofs.Soundtrack.Replacing
import SnesMusic.Proofs.Soundtrack.SongSlots

/-!
# Loading whatever the tables hold

A song table may be missing, cut off or full of words that lead nowhere, and each such word costs
one song, not its place. Main statements: what stands in for a slot can be saved, whether it was
read or not (`savable_songOrPlaceholder`); and a load that succeeds gives the game's songs their
names and banks in the order of their ids, the others behind them bank by bank in the order of the
tables, all of them without marks, and every instrument (`load_whole`).
-/
namespace SnesMusic

/-! ### Songs -/

/-- A song that can be saved: it has segments, its loop leads to one of them, and it has a size and
is encoded for every address. -/
structure Song.Savable (song : Song) : Prop where
  segmented : song.segments ≠ []
  looped : ∀ segment, song.loopPoint = some segment → segment < song.segments.length
  sized : ∃ size, song.requiredSpace = .ok size
  encodes : ∀ base, ∃ encoding, song.encode base = .ok encoding

theorem Song.savable_of_encodable {song : Song} (segmented : song.segments ≠ [])
    (looped : ∀ segment, song.loopPoint = some segment → segment < song.segments.length)
    (encodable : ∀ track ∈ song.tracks, track.Encodable) : song.Savable where
  segmented := segmented
  looped := looped
  sized := by
    obtain ⟨encoding, encoded⟩ := encode_of_encodable looped encodable 0
    exact ⟨_, requiredSpace_of_encode encoded⟩
  encodes := encode_of_encodable looped encodable

namespace Uploads

variable {u : Uploads} {limits : Limits} {bank : Bank}

theorem address_songOrPlaceholder (u : Uploads) (limits : Limits) (bank : Bank)
    (slot : SongSlot) : (u.songOrPlaceholder limits bank slot).value.address = slot.address := by
  unfold songOrPlaceholder
  split
  · rename_i null
    exact null.symm
  · cases read : (u.song limits bank slot.address).outcome with
    | error e => simp [read]
    | ok song => simpa [read] using (song_ok read).2.2.1

theorem savable_of_song {address : UInt16} {song : Song}
    (read : (u.song limits bank address).outcome = .ok song) : song.Savable :=
  Song.savable_of_encodable (segments_of_song read) (loopPoint_of_song read)
    fun track member _ => Track.fault_of_settled (settled_of_song read track member)

/-- A slot gives a song that can be saved, also where none could be read. -/
theorem savable_songOrPlaceholder (u : Uploads) (limits : Limits) (bank : Bank)
    (slot : SongSlot) : (u.songOrPlaceholder limits bank slot).value.Savable := by
  have silent : ∀ address, { Song.new slot.name bank with address }.Savable := by
    intro address
    refine Song.savable_of_encodable (by simp [Song.new]) (by simp [Song.new]) ?_
    intro track member filled
    have empty : ∀ track ∈ Segment.silent.tracks.toList, track.empty = true := by decide
    rw [empty track (by simpa [Song.tracks, Song.new] using member)] at filled
    contradiction
  unfold songOrPlaceholder
  split
  · exact silent 0
  · cases read : (u.song limits bank slot.address).outcome with
    | error e => simpa [read] using silent slot.address
    | ok song =>
      have whole := savable_of_song read
      simp only [read]
      exact ⟨whole.segmented, whole.looped, whole.sized, whole.encodes⟩

end Uploads

/-! ### Tables -/

theorem tableSlots_loadSongs (image : Image) (config : Config) (bank : Bank) :
    (loadSongs image config).value.tableSlots bank = (loadedTable image config bank).slots := by
  unfold loadSongs
  cases hook : image.expandedHook? <;> cases bank <;> simp [loadedTable, hook]

/-- No more words of a table are taken than are looked at. -/
theorem length_tableWords (image : Image) (bank : Bank) :
    (tableWords image bank).length ≤ bank.maxSongs := by
  unfold tableWords tableEntries
  cases table : (Uploads.ofImage image bank.uploadBank).pointerTable bank.tableAddress
      bank.maxSongs with
  | error e => exact Nat.zero_le _
  | ok entries =>
    have looked : entries.length ≤ bank.maxSongs := by
      unfold Uploads.pointerTable at table
      cases found : (Uploads.ofImage image bank.uploadBank).require bank.tableAddress with
      | error e => simp [found, bind, Except.bind] at table
      | ok data =>
        simp only [found, bind, Except.bind] at table
        split at table
        · contradiction
        · rw [← Except.ok.inj table]
          exact List.length_take_le ..
    exact Nat.le_trans (List.length_take_le' ..) looked

theorem length_songAddresses (image : Image) (config : Config) {bank : Bank}
    (own : bank.isExpansion = true) :
    (songAddresses image config bank).length ≤ bank.maxSongs := by
  rw [songAddresses, if_pos own]
  split
  · exact Nat.le_trans (List.length_filter_le ..) (length_tableWords image bank)
  · exact Nat.zero_le _

/-- The game's own slots of all tables have the names and the banks of the game's songs. -/
theorem names_vanillaSongSlots (entries : Bank → List UInt16) :
    (Bank.all.flatMap fun bank =>
      (vanillaSongSlots bank (entries bank)).map fun slot => (slot.name, bank)) = vanillaSongs := by
  have names : ∀ bank, (vanillaSongSlots bank (entries bank)).map (fun slot => (slot.name, bank)) =
      (vanillaSongSlots bank []).map fun slot => (slot.name, bank) := by
    intro bank
    simp only [vanillaSongSlots]
    cases bank.songRange with
    | none => rfl
    | some range => simp only [List.map_map]; rfl
  simp only [names]
  decide

namespace Soundtrack

variable {s : Soundtrack} {image : Image}

theorem tableSlots_load (s : Soundtrack) (there : image.isLoaded = true) (bank : Bank) :
    (s.load image).soundtrack.tableSlots bank = (loadedTable image s.config bank).slots := by
  obtain ⟨instruments, entries, loaded, same⟩ := load_eq s there
  rw [same]
  exact tableSlots_loadSongs ..

/-- No table counts more than was looked at. -/
theorem tableSlots_load_le (there : image.isLoaded = true) (bank : Bank) :
    (s.load image).soundtrack.tableSlots bank ≤ bank.maxSongs := by
  obtain ⟨before, table⟩ := loadedTable_eq image s.config bank
  rw [tableSlots_load s there, table]
  simp only
  split
  · exact length_songAddresses _ _ (by assumption)
  · exact length_tableWords ..

/-- The songs of a load, the game's own in front of the others. -/
theorem songs_load_eq (there : image.isLoaded = true) :
    ∃ vanilla custom,
      (s.load image).soundtrack.songs = vanilla ++ custom ∧
      vanilla.map (fun song => (song.name, song.bank)) = vanillaSongs ∧
      vanilla.map (·.address) = (Bank.all.flatMap fun bank =>
        (songAddresses image s.config bank).take bank.vanillaSlots) ∧
      custom.map (fun song => (song.bank, song.address)) = (Bank.all.flatMap fun bank =>
        ((songAddresses image s.config bank).drop bank.vanillaSlots).map fun address =>
          (bank, address)) := by
  refine ⟨_, _, (songs_load s there).trans (songs_loadSongs image s.config), ?_, ?_, ?_⟩
  · rw [List.map_flatMap, ← names_vanillaSongSlots (tableWords image)]
    refine congrArg (Bank.all.flatMap ·) (funext fun bank => ?_)
    obtain ⟨before, table⟩ := loadedTable_eq image s.config bank
    simp only [table, List.map_map, Function.comp_def, Uploads.name_songOrPlaceholder,
      Uploads.bank_songOrPlaceholder]
  · rw [List.map_flatMap]
    refine congrArg (Bank.all.flatMap ·) (funext fun bank => ?_)
    obtain ⟨before, table⟩ := loadedTable_eq image s.config bank
    simp only [table, List.map_map, Function.comp_def, Uploads.address_songOrPlaceholder,
      take_songAddresses]
  · rw [List.map_flatMap]
    refine congrArg (Bank.all.flatMap ·) (funext fun bank => ?_)
    obtain ⟨before, table⟩ := loadedTable_eq image s.config bank
    simp only [table, ← address_furtherSongSlots image s.config bank before, List.map_map,
      Function.comp_def, Uploads.bank_songOrPlaceholder, Uploads.address_songOrPlaceholder]

/-- Whatever the tables hold, every song that is loaded can be saved and none is marked. -/
theorem savable_load (there : image.isLoaded = true) :
    ∀ song ∈ (s.load image).soundtrack.songs, song.Savable ∧ song.modified = false := by
  intro song listed
  refine ⟨?_, modified_of_load there song listed⟩
  obtain ⟨slot, read⟩ := slot_of_load s there listed
  rw [← read]
  exact Uploads.savable_songOrPlaceholder ..

theorem length_instruments_load (ok : (s.load image).outcome = .ok ()) :
    (s.load image).soundtrack.instruments.length = instrumentCount := by
  obtain ⟨-, table, -, whole, -, instruments⟩ := instruments_load ok
  rw [instruments, length_readInstruments whole]
  rfl

theorem length_loadSamples {common : Uploads} {entries : List SampleEntry}
    (read : loadSamples common = .ok entries) : entries.length ≤ maxSamples := by
  unfold loadSamples at read
  cases place : common.offset? sampleDirectoryAddress with
  | none => simp [place] at read
  | some directory =>
    cases found : common.require sampleDirectoryAddress with
    | error e => simp [place, found, bind, Except.bind] at read
    | ok data =>
      simp only [place, found, bind, Except.bind, pure, Except.pure, Except.ok.injEq] at read
      rw [← read, List.length_map, List.length_zipIdx]
      exact List.length_take_le ..

/-- A load that succeeds is whole, whatever the tables of the image hold. The first songs are the
game's own, with their names and in their banks, each read from its slot; the others follow bank by
bank, in the order of the tables. Every song can be saved, nothing is marked as changed, all
instruments are there, and neither samples nor table words are more than are looked at. -/
theorem load_whole (ok : (s.load image).outcome = .ok ()) :
    let t := (s.load image).soundtrack
    (t.songs.take vanillaCount).map (fun song => (song.name, song.bank)) = vanillaSongs ∧
      (t.songs.take vanillaCount).map (·.address) = (Bank.all.flatMap fun bank =>
        (songAddresses image s.config bank).take bank.vanillaSlots) ∧
      (t.songs.drop vanillaCount).map (fun song => (song.bank, song.address)) =
        (Bank.all.flatMap fun bank =>
          ((songAddresses image s.config bank).drop bank.vanillaSlots).map fun address =>
            (bank, address)) ∧
      (∀ song ∈ t.songs, song.Savable ∧ song.modified = false) ∧
      t.hasModifications = false ∧
      t.instruments.length = instrumentCount ∧
      t.samples.length ≤ maxSamples ∧
      ∀ bank, t.tableSlots bank ≤ bank.maxSongs := by
  intro t
  obtain ⟨there, instruments, entries, samples, loaded⟩ := load_ok ok
  obtain ⟨vanilla, custom, songs, names, addresses, order⟩ := songs_load_eq (s := s) there
  have own : vanilla.length = vanillaCount := by
    rw [← List.length_map, names, length_vanillaSongs]
  have first : t.songs.take vanillaCount = vanilla := by rw [songs, ← own, List.take_left]
  have others : t.songs.drop vanillaCount = custom := by rw [songs, ← own, List.drop_left]
  refine ⟨?_, ?_, ?_, savable_load there, ?_, length_instruments_load ok, ?_,
    tableSlots_load_le there⟩
  · rw [first, names]
  · rw [first, addresses]
  · rw [others, order]
  · have untouched : ∀ bank, t.touched bank = false := fun bank => by simp only [t, loaded]
    have clean : t.dirtyBanks = [] := dirtyBanks_eq_nil untouched (modified_of_load there)
    exact hasModifications_of_clean (songsOnly_load ok) clean
  · simp only [t, loaded, Soundtrack.samples, List.length_map]
    exact length_loadSamples samples

end Soundtrack

/-- A table whose words lead nowhere: twenty of the last address, one below the table, a null word
and one behind it. -/
def wildBlock : SingleBlock := {
  bank := .dungeon
  address := 0xD000
  payload := List.replicate 40 0xFF ++ [0x34, 0x12, 0x00, 0x00, 0x00, 0xE0] }

def wildImage : Image := .ofBlocks [sharedBlock, wildBlock]

theorem uploads_wildImage (bank : UploadBank) : Uploads.ofImage wildImage bank = {
    bank
    blocks := (match bank with
      | .dungeon => [wildBlock.placed]
      | _ => []) ++ [sharedBlock.placed] } := by
  rw [wildImage, Image.uploads_ofBlocks (by decide) (by decide +kernel)]
  cases bank <;> rfl

theorem addresses_wildImage (config : Config) (bank : Bank) :
    (songAddresses wildImage config bank).drop bank.vanillaSlots =
      match bank with
      | .dungeon => [0x1234]
      | _ => [] := by
  have none : wildImage.expandedHook? = .none := Image.expandedHook?_ofBlocks _
  rw [drop_songAddresses, songAddresses, none, tableWords, uploads_wildImage]
  simp only [Option.isSome_none, Bool.false_and, Bool.false_eq_true, if_false]
  cases bank <;> decide +kernel

theorem loads_wildImage : (({} : Soundtrack).load wildImage).outcome = .ok () := by
  refine Soundtrack.outcome_load _ (Image.isLoaded_ofBlocks _) ?_ ?_
  · rw [uploads_wildImage]
    decide +kernel
  · rw [uploads_wildImage]
    decide +kernel

/-- All songs of the game are there, and of the words behind them one has a song. -/
theorem load_whole_wildImage :
    (({} : Soundtrack).load wildImage).outcome = .ok () ∧
      ((({} : Soundtrack).load wildImage).soundtrack.songs.take vanillaCount).map
        (fun song => (song.name, song.bank)) = vanillaSongs ∧
      ((({} : Soundtrack).load wildImage).soundtrack.songs.drop vanillaCount).map
        (fun song => (song.bank, song.address)) = [(.dungeon, 0x1234)] := by
  obtain ⟨names, -, others, -⟩ := Soundtrack.load_whole loads_wildImage
  refine ⟨loads_wildImage, names, others.trans ?_⟩
  simp only [addresses_wildImage]
  rfl

end SnesMusic
