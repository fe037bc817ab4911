import SnesMusic.Proofs.Bytecode.Canonical
import SnesMusic.Proofs.Soundtrack.KeptMusic
import SnesMusic.Proofs.Soundtrack.SongCount
import SnesMusic.Proofs.Soundtrack.SpaceReport

/-!
# Slots of the game's own songs

A save numbers the songs of a bank in their order, while a load gives the first slots of each table
to the game's own songs by fixed ranges. Main statements: one of the game's own songs is loaded from
the slot of its bank that has the number of songs of the bank in front of it (`song_load`);
operations on songs keep that number as long as none of the game's own songs changes its bank
(`songsBefore_of_slotRun`); and where it is kept, the song comes back after a save and a load, with
its loop and in canonical form (`vanilla_song_reloads`).
-/
namespace SnesMusic

open LittleEndian

/-! ### Order within a bank -/

/-- Among the elements with a property, an element has as many in front of it as the property holds
of before it. -/
theorem getElem?_filter_countP {α : Type} {p : α → Bool} {xs : List α} {i : Nat} {x : α}
    (found : xs[i]? = some x) (holds : p x = true) :
    (xs.filter p)[(xs.take i).countP p]? = some x := by
  obtain ⟨inside, here⟩ := List.getElem?_eq_some_iff.mp found
  have split : xs.filter p = (xs.take i).filter p ++ x :: (xs.drop (i + 1)).filter p := by
    rw [← List.filter_cons_of_pos holds, ← List.filter_append, ← here, List.getElem_cons_drop,
      List.take_append_drop]
  rw [split, List.countP_eq_length_filter, List.getElem?_append_right (Nat.le_refl _),
    Nat.sub_self, List.getElem?_cons_zero]

/-- The slot of the game's own song at an index: as many of the game's songs in front of it have the
same bank. -/
def vanillaSlot (bank : Bank) (i : Nat) : Nat :=
  ((vanillaSongs.map (·.2)).take i).count bank

/-- The game's own songs live in the banks of the game, within the part of the table that is looked
at. -/
theorem vanillaSlot_lt {i : Nat} {bank : Bank}
    (listed : (vanillaSongs.map (·.2))[i]? = some bank) :
    bank.isExpansion = false ∧ vanillaSlot bank i < bank.maxSongs := by
  have each : ∀ i : Fin 34, ∀ bank ∈ (vanillaSongs.map (·.2))[i.val]?,
      bank.isExpansion = false ∧ vanillaSlot bank i < bank.maxSongs := by decide
  have inside : i < 34 := (List.getElem?_eq_some_iff.mp listed).1
  exact each ⟨i, inside⟩ bank listed

namespace Soundtrack

variable {s t : Soundtrack} {image : Image} {bank : Bank} {i : Nat}

/-- How many songs of a bank stand in front of an index. -/
def songsBefore (s : Soundtrack) (bank : Bank) (i : Nat) : Nat :=
  (s.songs.take i).countP (·.bank == bank)

theorem songsIn_songsBefore {song : Song} (found : s.songs[i]? = some song) :
    (s.songsIn song.bank)[s.songsBefore song.bank i]? = some song :=
  getElem?_filter_countP found (beq_self_eq_true _)

/-- The banks of the songs in front of an index decide the number. -/
theorem songsBefore_eq_count (s : Soundtrack) (bank : Bank) (i : Nat) :
    s.songsBefore bank i = ((s.songs.map (·.bank)).take i).count bank := by
  rw [songsBefore, List.count, ← List.map_take, List.countP_map]
  rfl

/-! ### Loaded songs -/

theorem banks_vanilla (image : Image) (config : Config) (bank : Bank) :
    (loadedTable image config bank).vanilla.map (·.bank) =
      List.replicate bank.vanillaSlots bank := by
  obtain ⟨before, table⟩ := loadedTable_eq image config bank
  have count := congrArg List.length (address_vanillaSongSlots bank (tableWords image bank))
  rw [List.length_map, List.length_map, List.length_range] at count
  rw [table, List.map_map]
  refine List.eq_replicate_iff.mpr ⟨by rw [List.length_map, count], fun other member => ?_⟩
  obtain ⟨slot, -, rfl⟩ := List.mem_map.mp member
  exact Uploads.bank_songOrPlaceholder _ _ _ _

/-- The game's own songs come first, in their banks. -/
theorem banks_load (s : Soundtrack) (there : image.isLoaded = true) :
    ∃ custom, (s.load image).soundtrack.songs.map (·.bank) =
      vanillaSongs.map (·.2) ++ custom := by
  have vanilla : Bank.all.flatMap (fun bank => List.replicate bank.vanillaSlots bank) =
      vanillaSongs.map (·.2) := rfl
  rw [songs_load s there, songs_loadSongs, List.map_append, List.map_flatMap]
  simp only [banks_vanilla, vanilla]
  exact ⟨_, rfl⟩

/-- As many songs of a bank stand in front of one of the game's own as in the list of the game's
songs. -/
theorem songsBefore_load (s : Soundtrack) (there : image.isLoaded = true)
    (own : i ≤ vanillaCount) (bank : Bank) :
    (s.load image).soundtrack.songsBefore bank i = vanillaSlot bank i := by
  obtain ⟨custom, banks⟩ := banks_load s there
  rw [songsBefore_eq_count, banks, vanillaSlot, List.take_append_of_le_length]
  exact own

theorem bank_load (s : Soundtrack) (there : image.isLoaded = true) (own : i < vanillaCount) :
    ((s.load image).soundtrack.songs[i]?).map (·.bank) = (vanillaSongs.map (·.2))[i]? := by
  obtain ⟨custom, banks⟩ := banks_load s there
  rw [← List.getElem?_map, banks, List.getElem?_append_left]
  exact own

/-- One of the game's own songs is loaded from its slot of its bank's table. -/
theorem song_load (s : Soundtrack) (there : image.isLoaded = true)
    (listed : (vanillaSongs.map (·.2))[i]? = some bank) :
    ∃ slot : SongSlot,
      (songAddresses image s.config bank)[vanillaSlot bank i]? = some slot.address ∧
      (s.load image).soundtrack.songs[i]? =
        some ((Uploads.ofImage image bank.uploadBank).songOrPlaceholder
          s.config.limits bank slot).value := by
  have own : i < vanillaCount := (List.getElem?_eq_some_iff.mp listed).1
  have home := bank_load s there own
  rw [listed, Option.map_eq_some_iff] at home
  obtain ⟨song, found, rfl⟩ := home
  have stands := songsIn_songsBefore found
  obtain ⟨slots, addresses, songs⟩ := songsIn_load s there song.bank
  rw [songsBefore_load s there (Nat.le_of_lt own), songs, List.getElem?_map,
    Option.map_eq_some_iff] at stands
  obtain ⟨slot, entered, read⟩ := stands
  refine ⟨slot, ?_, found.trans (congrArg some read.symm)⟩
  rw [← addresses, List.getElem?_map, entered]
  rfl

end Soundtrack

/-! ### Runs -/

/-- Operations on songs that leave the one at an index alone and move none of the game's own songs
to another bank. -/
inductive SlotRun (start : Soundtrack) (i : Nat) : Soundtrack → Prop where
  | none : SlotRun start i start
  | create {s : Soundtrack} (before : SlotRun start i s) (name : String) (bank : Bank) :
      SlotRun start i (s.createSong name bank)
  | add {s : Soundtrack} (before : SlotRun start i s) (song : Song) :
      SlotRun start i (s.addSong song)
  | duplicate {s t : Soundtrack} (before : SlotRun start i s) {index : Nat}
      (done : s.duplicateSong index = .ok t) : SlotRun start i t
  | delete {s t : Soundtrack} (before : SlotRun start i s) {index : Nat} {song : Song}
      (done : s.deleteSong index = .ok (song, t)) : SlotRun start i t
  | update {s t : Soundtrack} (before : SlotRun start i s) {index : Nat} {change : Song → Song}
      (other : index ≠ i)
      (home : isVanilla index = true → ∀ song, (change song).bank = song.bank)
      (done : s.updateSong index change = .ok t) : SlotRun start i t

namespace Soundtrack

/-- The song at an index and the banks of the game's own songs are as they were. -/
structure SlotsKept (i : Nat) (s t : Soundtrack) : Prop where
  full : vanillaCount ≤ t.songs.length
  song : t.songs[i]? = s.songs[i]?
  banks : (t.songs.map (·.bank)).take vanillaCount = (s.songs.map (·.bank)).take vanillaCount

variable {s t u : Soundtrack} {i : Nat}

theorem SlotsKept.trans (h : SlotsKept i s t) (h' : SlotsKept i t u) : SlotsKept i s u :=
  ⟨h'.full, h'.song.trans h.song, h'.banks.trans h.banks⟩

theorem SlotsKept.songsBefore_eq (kept : SlotsKept i s t) (own : i ≤ vanillaCount) (bank : Bank) :
    t.songsBefore bank i = s.songsBefore bank i := by
  have banks := congrArg (List.take i) kept.banks
  rw [List.take_take, List.take_take, Nat.min_eq_left own] at banks
  rw [songsBefore_eq_count, songsBefore_eq_count, banks]

theorem slotsKept_addSong (full : vanillaCount ≤ s.songs.length) (own : i < vanillaCount)
    (song : Song) : SlotsKept i s (s.addSong song) := by
  refine ⟨?_, ?_, ?_⟩
  · rw [addSong, List.length_append]
    omega
  · rw [addSong, List.getElem?_append_left (by omega)]
  · rw [addSong, List.map_append, List.take_append_of_le_length (by rwa [List.length_map])]

/-- The game's own songs are protected: what is taken out stands behind them. -/
theorem slotsKept_deleteSong {index : Nat} {song : Song} (full : vanillaCount ≤ s.songs.length)
    (own : i < vanillaCount) (done : s.deleteSong index = .ok (song, t)) : SlotsKept i s t := by
  have behind : vanillaCount ≤ index := by
    simpa [isVanilla] using isVanilla_of_deleteSong done
  obtain ⟨found, rfl⟩ := deleteSong_ok done
  have inside := (List.getElem?_eq_some_iff.mp (getElem?_of_song? found)).1
  refine ⟨?_, ?_, ?_⟩
  · show vanillaCount ≤ (s.songs.eraseIdx index).length
    rw [List.length_eraseIdx_of_lt inside]
    omega
  · show (s.songs.eraseIdx index)[i]? = s.songs[i]?
    rw [List.getElem?_eraseIdx_of_lt (by omega)]
  · show ((s.songs.eraseIdx index).map (·.bank)).take vanillaCount = _
    rw [← List.map_take, ← List.map_take, List.eraseIdx_eq_take_drop_succ,
      List.take_append_of_le_length (by rw [List.length_take]; omega), List.take_take,
      Nat.min_eq_left behind]

/-- A song that is changed behind the game's own, or keeps its bank, shifts none of them. -/
theorem slotsKept_updateSong {index : Nat} {change : Song → Song}
    (full : vanillaCount ≤ s.songs.length) (other : index ≠ i)
    (home : isVanilla index = true → ∀ song, (change song).bank = song.bank)
    (done : s.updateSong index change = .ok t) : SlotsKept i s t := by
  obtain ⟨song, found, rfl⟩ := updateSong_ok done
  have here := getElem?_of_song? found
  refine ⟨?_, ?_, ?_⟩
  · show vanillaCount ≤ (s.songs.set index _).length
    rwa [List.length_set]
  · show (s.songs.set index _)[i]? = s.songs[i]?
    rw [List.getElem?_set_ne other]
  · show ((s.songs.set index _).map (·.bank)).take vanillaCount = _
    rw [List.map_set]
    by_cases own : isVanilla index = true
    · have same : (s.songs.map (·.bank))[index]? = some song.bank := by
        rw [List.getElem?_map, here]
        rfl
      obtain ⟨within, stands⟩ := List.getElem?_eq_some_iff.mp same
      rw [home own, ← stands, List.set_getElem_self]
    · have behind : vanillaCount ≤ index := by simpa [isVanilla] using own
      rw [List.take_set_of_le behind]

end Soundtrack

namespace SlotRun

variable {start s : Soundtrack} {i : Nat}

theorem songRun (run : SlotRun start i s) : SongRun start s := by
  induction run with
  | none => exact .refl _
  | create _ name bank ih => exact .tail ih (.create _ name bank)
  | add _ song ih => exact .tail ih (.add _ song)
  | duplicate _ done ih => exact .tail ih (.duplicate done)
  | delete _ done ih => exact .tail ih (.delete done)
  | update _ _ _ done ih => exact .tail ih (.update done)

theorem kept (run : SlotRun start i s) (full : vanillaCount ≤ start.songs.length)
    (own : i < vanillaCount) : Soundtrack.SlotsKept i start s := by
  induction run with
  | none => exact ⟨full, rfl, rfl⟩
  | create _ name bank ih => exact ih.trans (Soundtrack.slotsKept_addSong ih.full own _)
  | add _ song ih => exact ih.trans (Soundtrack.slotsKept_addSong ih.full own song)
  | duplicate _ done ih =>
    obtain ⟨song, -, rfl⟩ := Soundtrack.duplicateSong_ok done
    exact ih.trans (Soundtrack.slotsKept_addSong ih.full own _)
  | delete _ done ih => exact ih.trans (Soundtrack.slotsKept_deleteSong ih.full own done)
  | update _ other home done ih =>
    exact ih.trans (Soundtrack.slotsKept_updateSong ih.full other home done)

end SlotRun

namespace Soundtrack

/-- After a load and any such run, one of the game's own songs is as it was loaded, with as many
songs of each bank in front of it. -/
theorem songsBefore_of_slotRun {start s : Soundtrack} {image : Image} {i : Nat}
    (there : image.isLoaded = true) (run : SlotRun (start.load image).soundtrack i s)
    (own : i < vanillaCount) :
    s.songs[i]? = (start.load image).soundtrack.songs[i]? ∧
      ∀ bank, s.songsBefore bank i = (start.load image).soundtrack.songsBefore bank i := by
  obtain ⟨custom, banks⟩ := banks_load start there
  have count := congrArg List.length banks
  rw [List.length_map, List.length_append, List.length_map, length_vanillaSongs] at count
  have kept := run.kept (by omega) own
  exact ⟨kept.song, kept.songsBefore_eq (Nat.le_of_lt own)⟩

/-! ### Saved songs -/

variable {s : Soundtrack} {image : Image} {bank : Bank}

/-- A song that a save placed is loaded from the slot with its number, with what its tracks are
read as. -/
theorem song_of_wrote_as {moved : List Song} {body : List UInt8} {slot : SongSlot} {k : Nat}
    {song : Song} {result : Track → Track}
    {config : Config} (w : Saving.Wrote (fun bank => min (config.limit bank) bank.room) bank image
      (s.songsIn bank) moved body)
    (game : bank.isExpansion = false) (inside : k < bank.maxSongs)
    (stands : (s.songsIn bank)[k]? = some song)
    (entered : (songAddresses image config bank)[k]? = some slot.address)
    (read : ∀ base data, ∀ track ∈ song.tracks, ∀ address,
      Song.TrackAt (Uploads.ofImage image bank.uploadBank) base data track address →
        ((Uploads.ofImage image bank.uploadBank).track config.limits address).outcome =
          .ok (result track)) :
    ((Uploads.ofImage image bank.uploadBank).songOrPlaceholder config.limits bank slot).value =
      { song with
        segments := song.readAs result
        name := slot.name, bank, address := slot.address, modified := false } := by
  obtain ⟨place, placed⟩ := w.placed.getElem? stands
  obtain ⟨encoding, encoded, held, far⟩ := w.holds_song (Nat.min_le_right ..) placed
  have target : slot.address = (song.movedTo place).address := by
    rw [w.getElem?_songAddresses (by simp [game]) inside placed, Option.some.injEq] at entered
    exact entered.symm
  rw [Uploads.songOrPlaceholder_of_read bank target encoded held far (read _ _), target]
  rfl

theorem song_of_wrote {moved : List Song} {body : List UInt8} {slot : SongSlot} {k : Nat}
    {song : Song} {config : Config}
    (w : Saving.Wrote (fun bank => min (config.limit bank) bank.room) bank image
      (s.songsIn bank) moved body) (game : bank.isExpansion = false) (inside : k < bank.maxSongs)
    (stands : (s.songsIn bank)[k]? = some song)
    (entered : (songAddresses image config bank)[k]? = some slot.address)
    (segmented : song.segments ≠ [])
    (heard : ∀ track ∈ song.tracks, track.empty = false → 1 ≤ config.limits.depth ∧
      Track.Heard (Uploads.ofImage image bank.uploadBank) config.limits track.events) :
    ((Uploads.ofImage image bank.uploadBank).songOrPlaceholder config.limits bank slot).value =
      { song.canonical with
        name := slot.name, bank, address := slot.address, modified := false } := by
  rw [song_of_wrote_as w game inside stands entered fun _ _ =>
    Uploads.track_read_of_heard heard, Song.readAs_of_ne segmented]
  rfl

/-- Where a bank of the game has its songs does not depend on anything but its uploads. -/
theorem songAddresses_of_uploads {saved : Image} {config config' : Config}
    (game : bank.isExpansion = false)
    (same : Uploads.ofImage saved bank.uploadBank = Uploads.ofImage image bank.uploadBank) :
    songAddresses saved config bank = songAddresses image config' bank := by
  rw [songAddresses, songAddresses, game, tableWords, tableWords, same]
  rfl

/-- After any run of song operations, a save and a load bring one of the game's own songs back that
is still as it was loaded: with its loop, and in canonical form, where no call is repeated and no
track runs out of ticks. If its bank was saved, as many songs of the bank have to be in front of it
as when it was loaded, and for a song of the dungeon the credits must not have been saved over the
dungeon's block. If not, the image must be the one that was loaded, and nothing may have been
written to the blocks of the bank or to the shared blocks. -/
theorem vanilla_song_reloads {start s : Soundtrack} {original image : Image} {i : Nat} {song : Song}
    (loaded : (start.load original).outcome = .ok ())
    (run : SongRun (start.load original).soundtrack s)
    (saved : (s.save image).outcome = .ok ()) (own : i < vanillaCount)
    (before : (start.load original).soundtrack.songs[i]? = some song)
    (unedited : s.songs[i]? = some song)
    (uncalled : ∀ track ∈ song.tracks, track.empty = false →
      ∀ e ∈ Track.beforeEnd track.events, ∀ target repeats,
        e.call? = some (target, repeats) → repeats = 0)
    (short : ∀ track ∈ song.tracks, track.empty = false →
      Track.ticksBeforeEnd track.events < start.config.limits.ticks)
    (dirty : song.bank ∈ s.dirtyBanks →
      s.songsBefore song.bank i = (start.load original).soundtrack.songsBefore song.bank i ∧
        (song.bank = .dungeon → s.CreditsApart))
    (clean : song.bank ∉ s.dirtyBanks → image = original ∧
      original.Untouched song.bank.uploadBank (s.SaveTakes original.headerOffset) ∧
      original.Untouched .common (s.SaveTakes original.headerOffset))
    {fresh : Soundtrack} (configured : fresh.config = start.config) :
    ∃ reloaded, (fresh.load (s.save image).image).soundtrack.songs[i]? = some reloaded ∧
      reloaded.loopPoint = song.loopPoint ∧
      reloaded.canonical.segments = song.canonical.segments := by
  obtain ⟨only, config⟩ := run.songsOnly (songsOnly_load loaded)
  rw [config_load] at config
  obtain ⟨there, -⟩ := load_ok loaded
  have listed : (vanillaSongs.map (·.2))[i]? = some song.bank := by
    rw [← bank_load start there own, before]
    rfl
  obtain ⟨game, looked⟩ := vanillaSlot_lt listed
  obtain ⟨slot, entered, read⟩ := song_load start there listed
  rw [before, Option.some.injEq] at read
  by_cases member : song.bank ∈ s.dirtyBanks
  -- The save places the song in the slot with its number in the bank, which is the slot it is
  -- looked for in.
  · obtain ⟨order, apart⟩ := dirty member
    obtain ⟨moved, body, w, -⟩ := wrote_save only saved member (.of_game game apart)
    have again := (w.tabled (Nat.min_le_right ..)).isLoaded
    obtain ⟨slot', entered', reloaded⟩ := song_load fresh again listed
    have stands := songsIn_songsBefore unedited
    rw [order, songsBefore_load start there (Nat.le_of_lt own)] at stands
    have segmented : song.segments ≠ [] := by
      rw [read]
      exact Uploads.segmented_songOrPlaceholder _ _ _ _
    have depth : ∀ track ∈ song.tracks, track.empty = false → 1 ≤ start.config.limits.depth := by
      rw [read]
      exact Uploads.depth_of_songOrPlaceholder
    rw [config, ← configured] at w
    have value := song_of_wrote w game looked stands entered' segmented
      fun track inside filled => by
        rw [configured]
        exact ⟨depth track inside filled, fun e heard target repeats called =>
          Or.inl (uncalled track inside filled e heard target repeats called),
          short track inside filled⟩
    refine ⟨_, reloaded, ?_, ?_⟩
    · rw [value]
      rfl
    · have twice := congrArg Song.segments song.canonical_canonical
      rw [value]
      exact twice
  -- Nothing was written to what the song was read from, so it is read once more.
  · obtain ⟨rfl, kept, shared⟩ := clean member
    have frame := takes_save only saved
    have uploads := uploads_of_frame frame kept shared
    have again : (s.save image).image.isLoaded = true := by
      rw [Image.isLoaded, frame.size]
      exact there
    obtain ⟨slot', entered', reloaded⟩ := song_load fresh again listed
    rw [songAddresses_of_uploads game uploads, entered, Option.some.injEq] at entered'
    rw [uploads, configured, Uploads.songOrPlaceholder_congr _ _ _ entered'.symm, ← read]
      at reloaded
    exact ⟨_, reloaded, rfl, rfl⟩

/-- Behind the block of a bank that alone was saved stands the end of its chain. -/
theorem chainEnd_of_alone {s : Soundtrack} {image : Image} {bank : Bank} {size : Nat}
    (only : s.SongsOnly) (saved : (s.save image).outcome = .ok ()) (alone : s.dirtyBanks = [bank])
    (sized : s.payloadSize bank = .ok size) :
    (s.save image).image.Has (image.locate bank.offset + (Block.headerSize + size))
      ([0, 0] ++ [0, 0]) := by
  obtain ⟨-, done, written, -⟩ := save_ok only saved
  have single : s.saveBanks image = Saving.saveSongs bank { soundtrack := s, image } := by
    rw [saveBanks, alone]
    rfl
  rw [single] at done written
  have zeros := (Saving.has_saveSongs done).right
  rw [Image.locate, Saving.headerOffset_saveSongs done, ← Image.locate, Block.length_encode,
    Saving.length_blockPayload_eq (Saving.saveSongs_ok done).1 sized, ← written] at zeros
  exact zeros

end Soundtrack

/-! ### An example -/

/-- A table of one song, a note that loops. -/
def soldierBlock : SingleBlock := {
  bank := .dungeon
  address := 0xD000
  payload := [0x02, 0xD0, 0x08, 0xD0, 0xFF, 0x00, 0x08, 0xD0, 0x18, 0xD0] ++
    List.replicate 14 0 ++ [0x18, 0xA4, 0x00] }

def soldierImage : Image := .ofBlocks [sharedBlock, soldierBlock]

theorem fits_soldierImage : ∀ b ∈ [sharedBlock, soldierBlock], b.Fits := by decide +kernel

theorem distinct_soldierImage : ([sharedBlock, soldierBlock].map SingleBlock.bank).Nodup := by
  decide

theorem uploads_soldierImage (bank : UploadBank) : Uploads.ofImage soldierImage bank = {
    bank
    blocks := (match bank with
      | .dungeon => [soldierBlock.placed]
      | _ => []) ++ [sharedBlock.placed] } := by
  rw [soldierImage, Image.uploads_ofBlocks distinct_soldierImage fits_soldierImage]
  cases bank <;> rfl

theorem isLoaded_soldierImage : soldierImage.isLoaded = true := Image.isLoaded_ofBlocks _

/-- A soundtrack whose credits may take all the room up to the end of memory. -/
def roomy : Soundtrack := { config := ({} : Config).withLimit .credits 0x3000 }

theorem loads_soldierImage : (roomy.load soldierImage).outcome = .ok () := by
  refine Soundtrack.outcome_load _ isLoaded_soldierImage ?_ ?_
  · rw [uploads_soldierImage]
    decide +kernel
  · rw [uploads_soldierImage]
    decide +kernel

def soldierSong : Song := {
  name := "Soldier"
  segments := [{
    tracks := (Vector.replicate 8 Track.silent).setIfInBounds 0
      (.ofEvents [.note { pitch := 0xA4, duration := 0x18, timed := true }, .finish]) }]
  loopPoint := some 0
  bank := .dungeon
  address := 0xD002 }

def soldierSongs : List Song :=
  (vanillaSongs.map fun song => Song.new song.1 song.2).set 11 soldierSong

theorem songs_soldierImage : (roomy.load soldierImage).soundtrack.songs = soldierSongs := by
  rw [songs_load _ isLoaded_soldierImage, loadSongs, soldierImage, Image.expandedHook?_ofBlocks,
    ← soldierImage]
  simp only [loadTable, uploads_soldierImage]
  decide +kernel

/-- Songs of one bank alone are saved to the image where they fit, if none loops beyond its
segments. -/
theorem saves_alone_soldierImage {s : Soundtrack} {bank : Bank} {size : Nat} (only : s.SongsOnly)
    (loaded : s.loaded = true) (config : s.config = roomy.config) (alone : s.dirtyBanks = [bank])
    (sized : s.payloadSize bank = .ok size) (short : size ≤ min (roomy.config.limit bank) bank.room)
    (looped : ∀ song ∈ s.songs, ∀ segment, song.loopPoint = some segment →
      segment < song.segments.length) :
    (s.save soldierImage).outcome = .ok () := by
  refine Soundtrack.save_of_room only loaded isLoaded_soldierImage ?_ ?_ ?_
  · refine Soundtrack.check_of_songsOnly only fun other member => ?_
    rw [alone, List.mem_singleton] at member
    rw [member, Soundtrack.checkBank, sized, config]
    simp only [bind, Except.bind]
    rw [if_neg (Nat.not_lt.mpr short)]
    rfl
  · intro other _ song listed
    exact looped song (List.mem_filter.mp listed).1
  · intro other member needed computed
    rw [alone, List.mem_singleton] at member
    rw [member, sized, Except.ok.injEq] at computed
    have room : bank.offset + (min (roomy.config.limit bank) bank.room + 2 * Block.headerSize) ≤
        0x1B0000 := by
      cases bank <;> decide
    rw [member, soldierImage, Image.locate_ofBlocks, Image.size_ofBlocks]
    omega

/-- Songs that were added to one bank are saved where they fit. -/
theorem saves_soldierImage {s : Soundtrack} {songs : List Song} {bank : Bank} {size : Nat}
    (more : (roomy.load soldierImage).soundtrack.Extends s) (same : s.songs = songs)
    (alone : ({ songs } : Soundtrack).dirtyBanks = [bank])
    (sized : ({ songs } : Soundtrack).payloadSize bank = .ok size)
    (short : size ≤ min (roomy.config.limit bank) bank.room)
    (looped : ∀ song ∈ songs, ∀ segment, song.loopPoint = some segment →
      segment < song.segments.length) :
    s.SongsOnly ∧ s.dirtyBanks = [bank] ∧ s.payloadSize bank = .ok size ∧
      (s.save soldierImage).outcome = .ok () := by
  obtain ⟨loaded, only, config, touched⟩ := more.of_load loads_soldierImage
  rw [← dirtyBanks_congr (s := s) same touched] at alone
  rw [← payloadSize_congr (s := s) same] at sized
  exact ⟨only, alone, sized,
    saves_alone_soldierImage only loaded config alone sized short (same ▸ looped)⟩

/-- The soundtrack of the image with a song added to the dungeon. -/
def cavern : Soundtrack :=
  (roomy.load soldierImage).soundtrack.createSong "Cavern" .dungeon

theorem songs_cavern : cavern.songs =
    soldierSongs ++ [{ Song.new "Cavern" .dungeon with modified := true }] := by
  rw [← songs_soldierImage]
  rfl

theorem soldier_reloads :
    SlotRun (roomy.load soldierImage).soundtrack 11 cavern ∧
      (cavern.save soldierImage).outcome = .ok () ∧ cavern.dirtyBanks = [.dungeon] ∧
      cavern.songs[11]? = some soldierSong ∧
      ∃ reloaded,
        (roomy.load (cavern.save soldierImage).image).soundtrack.songs[11]? = some reloaded ∧
        reloaded.loopPoint = some 0 ∧
        reloaded.canonical.segments = soldierSong.canonical.segments := by
  have run : SlotRun (roomy.load soldierImage).soundtrack 11 cavern :=
    SlotRun.none.create "Cavern" .dungeon
  have more : (roomy.load soldierImage).soundtrack.Extends cavern :=
    (SongAdditions.none.create "Cavern" .dungeon).extends_start
  have sized : ({ songs := soldierSongs ++ [{ Song.new "Cavern" .dungeon with modified := true }] }
      : Soundtrack).payloadSize .dungeon = .ok 469 := Report.ok_of_toOption (by decide +kernel)
  obtain ⟨-, alone, -, saved⟩ := saves_soldierImage more songs_cavern (by decide +kernel) sized
    (by decide) (by decide +kernel)
  have found : soldierSongs[11]? = some soldierSong := by decide +kernel
  rw [← songs_soldierImage] at found
  obtain ⟨kept, order⟩ :=
    Soundtrack.songsBefore_of_slotRun isLoaded_soldierImage run (by decide)
  have uncalled : ∀ track ∈ soldierSong.tracks, ∀ e ∈ Track.beforeEnd track.events,
      e.call? = none := by decide
  have short : ∀ track ∈ soldierSong.tracks, Track.ticksBeforeEnd track.events < 50000 := by
    decide
  have unedited := kept.trans found
  refine ⟨run, saved, alone, unedited, Soundtrack.vanilla_song_reloads loads_soldierImage
    run.songRun saved (by decide) found unedited ?_ ?_ (fun _ => ⟨order _, ?_⟩) ?_ rfl⟩
  · intro track member _ e heard target repeats called
    simp [uncalled track member e heard] at called
  · exact fun track member _ => short track member
  · intro _ member
    rw [alone] at member
    exact absurd member (by decide)
  · intro other
    rw [alone] at other
    exact absurd (List.mem_singleton_self _) other

/-- The soundtrack of the image with four songs in the credits, together longer than their default
capacity by far. -/
def longEncores : Soundtrack :=
  (List.replicate 4 (silentCredits 157)).foldl Soundtrack.addSong
    (roomy.load soldierImage).soundtrack

theorem additions_longEncores :
    SongAdditions (roomy.load soldierImage).soundtrack longEncores ∧
      longEncores.songs = soldierSongs ++ List.replicate 4 (silentCredits 157) := by
  obtain ⟨added, songs⟩ := additions_addSongs (List.replicate 4 (silentCredits 157))
    (SongAdditions.none : SongAdditions (roomy.load soldierImage).soundtrack _)
  rw [songs_soldierImage, List.map_replicate] at songs
  exact ⟨added, songs⟩

theorem saves_longEncores :
    longEncores.SongsOnly ∧ longEncores.dirtyBanks = [.credits] ∧
      longEncores.payloadSize .credits = .ok 11388 ∧
      (longEncores.save soldierImage).outcome = .ok () := by
  obtain ⟨added, songs⟩ := additions_longEncores
  have vanilla : songsSpace (songsOf .credits soldierSongs) = .ok 60 :=
    Report.ok_of_toOption (by decide +kernel)
  have one := songsSpace_silentCredits 157
  have space := songsSpace_append vanilla
    (songsSpace_append one (songsSpace_append one (songsSpace_append one one)))
  have sized : ({ songs := soldierSongs ++ List.replicate 4 (silentCredits 157) } :
      Soundtrack).payloadSize .credits = .ok 11388 := by
    have listed : ({ songs := soldierSongs ++ List.replicate 4 (silentCredits 157) } :
        Soundtrack).songsIn .credits =
          songsOf .credits soldierSongs ++ List.replicate 4 (silentCredits 157) := by
      rw [Soundtrack.songsIn, List.filter_append]
      rfl
    have count : (songsOf .credits soldierSongs).length = 3 := by decide +kernel
    rw [Soundtrack.payloadSize, listed, List.length_append, count]
    exact congrArg (· >>= _) space
  refine saves_soldierImage added.extends_start songs rfl sized (by decide) ?_
  intro song listed segment point
  rcases List.mem_append.mp listed with own | added
  · have looped : ∀ song ∈ soldierSongs, ∀ segment ∈ song.loopPoint,
        segment < song.segments.length := by decide +kernel
    exact looped song own segment point
  · rw [List.eq_of_mem_replicate added] at point
    simp [silentCredits, silentSong, Song.new] at point

/-- The end of the credits' chain covers the header of the dungeon's block. -/
theorem chain_longEncores :
    chain (longEncores.save soldierImage).image .dungeon = [] ∧
      chain (longEncores.save soldierImage).image .common = [sharedBlock.placed] := by
  obtain ⟨only, alone, sized, saved⟩ := saves_longEncores
  have place : ∀ offset, soldierImage.locate offset = offset := Image.locate_ofBlocks _
  have header : soldierImage.headerOffset = 0 := Image.headerOffset_ofBlocks _
  have frame := Soundtrack.takes_save only saved
  constructor
  · have zeros := Soundtrack.chainEnd_of_alone only saved alone sized
    have behind : Bank.credits.offset + (Block.headerSize + 11388) = UploadBank.dungeon.offset :=
      rfl
    rw [place, behind] at zeros
    rw [chain, Image.locate, frame.headerOffset, header, Nat.add_zero, maxBlocks, chainFrom,
      Block.read?_of_zero zeros.left]
  · have own := Image.chain_ofBlocks distinct_soldierImage fits_soldierImage
      (List.mem_cons_self ..)
    rw [← own]
    refine chain_of_frame frame (Image.untouched_ofBlocks distinct_soldierImage fits_soldierImage
      (List.mem_cons_self ..) rfl ?_)
    rintro i ⟨bank, -, size, -, taken⟩
    exact ⟨bank, size, taken⟩

/-- Without further conditions a song does not keep its slot: the dungeon is not saved, but nothing
of it is left. -/
theorem vanilla_song_lost :
    ¬∀ (start s fresh : Soundtrack) (original : Image) (i : Nat) (song : Song),
      (start.load original).outcome = .ok () →
      SongAdditions (start.load original).soundtrack s →
      (s.save original).outcome = .ok () →
      fresh.config = start.config → (fresh.load (s.save original).image).outcome = .ok () →
      i < vanillaCount → (start.load original).soundtrack.songs[i]? = some song →
      s.songs[i]? = some song →
      (∀ track ∈ song.tracks, track.empty = false → ∀ e ∈ track.events, e.call? = none) →
      (∀ track ∈ song.tracks, track.empty = false →
        Track.ticksBeforeEnd track.events < start.config.limits.ticks) →
      ∃ reloaded, (fresh.load (s.save original).image).soundtrack.songs[i]? = some reloaded ∧
        reloaded.loopPoint = song.loopPoint ∧
        reloaded.canonical.segments = song.canonical.segments := by
  intro kept
  obtain ⟨only, -, -, saved⟩ := saves_longEncores
  obtain ⟨added, songs⟩ := additions_longEncores
  obtain ⟨dungeon, shared⟩ := chain_longEncores
  have found : soldierSongs[11]? = some soldierSong := by decide +kernel
  have unedited : longEncores.songs[11]? = some soldierSong := by
    rw [songs, List.getElem?_append_left (by decide), found]
  rw [← songs_soldierImage] at found
  have uncalled : ∀ track ∈ soldierSong.tracks, ∀ e ∈ track.events, e.call? = none := by decide
  have short : ∀ track ∈ soldierSong.tracks, Track.ticksBeforeEnd track.events < 50000 := by
    decide
  have there : (longEncores.save soldierImage).image.isLoaded = true := by
    rw [Image.isLoaded, (Soundtrack.takes_save only saved).size]
    exact isLoaded_soldierImage
  have common : Uploads.ofImage (longEncores.save soldierImage).image .common =
      { bank := .common, blocks := [sharedBlock.placed] } := by
    rw [Uploads.ofImage, shared]
    rfl
  have own : Uploads.ofImage (longEncores.save soldierImage).image Bank.dungeon.uploadBank =
      { bank := .dungeon, blocks := [sharedBlock.placed] } := by
    rw [show Bank.dungeon.uploadBank = .dungeon from rfl, Uploads.ofImage, dungeon, shared]
    rfl
  obtain ⟨reloaded, again, loop, -⟩ := kept roomy longEncores roomy soldierImage 11 soldierSong
    loads_soldierImage added saved rfl
    (Soundtrack.outcome_load _ there (by rw [common]; decide +kernel)
      (by rw [common]; decide +kernel))
    (by decide) found unedited
    (fun track member _ => uncalled track member) (fun track member _ => short track member)
  obtain ⟨slot, entered, read⟩ := Soundtrack.song_load roomy there
    (show (vanillaSongs.map (·.2))[11]? = some .dungeon from rfl)
  have null : slot.address = 0 := by
    have places : (songAddresses (longEncores.save soldierImage).image roomy.config
        .dungeon)[vanillaSlot .dungeon 11]? = some 0 := by
      rw [songAddresses, if_neg (by decide), tableWords, own]
      decide +kernel
    rw [places, Option.some.injEq] at entered
    exact entered.symm
  rw [read, Option.some.injEq, Uploads.songOrPlaceholder, if_pos null] at again
  rw [← again] at loop
  simp [soldierSong, Song.new] at loop

end SnesMusic
