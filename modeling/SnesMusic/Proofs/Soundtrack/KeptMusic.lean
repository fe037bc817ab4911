import SnesMusic.Proofs.Bytecode.Expansion
import SnesMusic.Proofs.Soundtrack.Reload

/-!
# Music that saving keeps

Saving a bank lays out its songs anew and drops whatever else its blocks held, while calls keep
their addresses. Main statement: a song that is not edited comes to the same music after saving and
loading, where its calls lead to fragments that are uploaded as before and are made at the timing of
the note before them (`expansions_kept`).
-/
namespace SnesMusic

open LittleEndian

/-! ### Uploads that stay the same -/

/-- A bank's chain is as it was where none of its blocks was written to. -/
def Image.Untouched (image : Image) (bank : UploadBank) (region : Nat → Prop) : Prop :=
  ∀ i, image.locate bank.offset ≤ i → i < chainStop image (image.locate bank.offset) maxBlocks →
    ¬region i

/-- A chain that ends before anything that was written is as it was. -/
theorem chain_of_frame {image saved : Image} {region : Nat → Prop} {bank : UploadBank}
    (frame : Image.Frame saved image region) (untouched : image.Untouched bank region) :
    chain saved bank = chain image bank := by
  have agree := frame.agree untouched
  have symm : Image.Agree image saved (image.locate bank.offset)
      (chainStop image (image.locate bank.offset) maxBlocks) := agree.symm
  rw [chain, chain, agree.locate, chainFrom_congr symm]

theorem uploads_of_frame {image saved : Image} {region : Nat → Prop} {bank : UploadBank}
    (frame : Image.Frame saved image region) (own : image.Untouched bank region)
    (shared : image.Untouched .common region) :
    Uploads.ofImage saved bank = Uploads.ofImage image bank := by
  rw [Uploads.ofImage, Uploads.ofImage, chain_of_frame frame own, chain_of_frame frame shared]

/-- An address that neither the old nor the new blocks of a bank hold is uploaded as before. -/
theorem Uploads.from?_of_apart {image saved : Image} {bank : UploadBank} {target : UInt16}
    (shared : chain saved .common = chain image .common)
    (apart : ∀ block ∈ chain image bank ++ chain saved bank, block.from? target = none) :
    (Uploads.ofImage saved bank).from? target = (Uploads.ofImage image bank).from? target := by
  have old : (chain image bank).findSome? (·.from? target) = none :=
    List.findSome?_eq_none_iff.mpr fun block member =>
      apart block (List.mem_append_left _ member)
  have new : (chain saved bank).findSome? (·.from? target) = none :=
    List.findSome?_eq_none_iff.mpr fun block member =>
      apart block (List.mem_append_right _ member)
  simp only [from?, ofImage, List.findSome?_append, old, new, shared]

/-- Songs of a bank that nothing was written to are looked for where they were. -/
theorem Soundtrack.songAddresses_save {s : Soundtrack} {image : Image} (config : Config)
    {bank : Bank} (only : s.SongsOnly) (saved : (s.save image).outcome = .ok ())
    (own : image.Untouched bank.uploadBank (s.SaveTakes image.headerOffset))
    (shared : image.Untouched .common (s.SaveTakes image.headerOffset)) :
    songAddresses (s.save image).image config bank = songAddresses image config bank := by
  have frame := takes_save only saved
  have header : (s.save image).image.Agree image (image.locate bank.offset)
      (image.locate bank.offset + 4) :=
    frame.agree fun i low high =>
      own i low (Nat.lt_of_lt_of_le high (headerSize_le_chainStop _ _ _))
  have block : hasSongBlock (s.save image).image config bank = hasSongBlock image config bank := by
    rw [hasSongBlock, hasSongBlock, header.locate,
      Image.readBytes_congr header (Nat.le_refl _) (Nat.le_refl _)]
  rw [songAddresses, songAddresses, tableWords, tableWords, uploads_of_frame frame own shared,
    expandedHook?_save only saved, block]

/-- Expansion banks have songs with the patch only. -/
theorem expandedHook?_of_songAddresses {image : Image} {config : Config} {bank : Bank}
    {address : UInt16} (own : bank.isExpansion = true)
    (listed : address ∈ songAddresses image config bank) : image.expandedHook?.isSome = true := by
  rw [songAddresses, if_pos own] at listed
  split at listed
  · rename_i present
    exact (Bool.and_eq_true _ _ ▸ present).1
  · simp at listed

/-! ### Songs -/

namespace Uploads

variable {u : Uploads} {limits : Limits} {bank : Bank}

/-- The tracks of a song do not depend on its name. -/
theorem segments_songOrPlaceholder {slot slot' : SongSlot} (same : slot'.address = slot.address) :
    (u.songOrPlaceholder limits bank slot').value.segments =
      (u.songOrPlaceholder limits bank slot).value.segments := by
  rw [u.songOrPlaceholder_congr limits bank same]

/-- A loaded song that can be read at its address was read there. -/
theorem segments_of_parsed {slot : SongSlot} {read : Song}
    (parsed : (u.song limits bank (u.songOrPlaceholder limits bank slot).value.address).outcome =
      .ok read) :
    (u.songOrPlaceholder limits bank slot).value.segments = read.segments := by
  unfold songOrPlaceholder at parsed ⊢
  by_cases null : slot.address = 0
  · rw [if_pos null] at parsed
    exact absurd rfl (song_ok parsed).1
  · rw [if_neg null] at parsed ⊢
    cases outcome : (u.song limits bank slot.address).outcome with
    | error e => simp [outcome] at parsed
    | ok song =>
      have address := (song_ok outcome).2.2.1
      simp only [outcome, address, Except.ok.injEq] at parsed ⊢
      rw [parsed]

end Uploads

/-- Songs that come to the same music: as many segments, and tracks that expand to the same events
however deep calls are followed. -/
structure SameMusic (limits : Limits) (u : Uploads) (song : Song) (v : Uploads) (other : Song) :
    Prop where
  segments : other.segments.length = song.segments.length
  tracks : ∀ levels, other.tracks.map (v.expansion limits levels) =
    song.tracks.map (u.expansion limits levels)

theorem SameMusic.of_segments {limits : Limits} {u : Uploads} {song other : Song}
    (same : other.segments = song.segments) : SameMusic limits u song u other :=
  ⟨by rw [same], fun _ => by rw [Song.tracks, Song.tracks, same]⟩

/-- The calls of a song are made at the timing of the note before them, and lead to no fragments
that the bank's own blocks held before it was saved, or hold after. If they lead anywhere, the
shared blocks are as they were. -/
structure CallsKept (image saved : Image) (bank : Bank) (song : Song) : Prop where
  timely : ∀ word ∈ (Uploads.ofImage image bank.uploadBank).channels song.address, ∀ bytes,
    (Uploads.ofImage image bank.uploadBank).from? word = some bytes →
      Timely {} {} (Token.lex bytes)
  apart : ∀ word ∈ (Uploads.ofImage image bank.uploadBank).channels song.address, ∀ target,
    (Uploads.ofImage image bank.uploadBank).LeadsTo word target →
      ∀ block ∈ chain image bank.uploadBank ++ chain saved bank.uploadBank,
        block.from? target = none
  shared : ∀ word ∈ (Uploads.ofImage image bank.uploadBank).channels song.address, ∀ target,
    (Uploads.ofImage image bank.uploadBank).LeadsTo word target →
      chain saved .common = chain image .common

/-- Fragments that kept calls lead to are uploaded as before. -/
theorem CallsKept.from?_eq {image saved : Image} {bank : Bank} {song : Song}
    (calls : CallsKept image saved bank song) {word target : UInt16}
    (listed : word ∈ (Uploads.ofImage image bank.uploadBank).channels song.address)
    (leads : (Uploads.ofImage image bank.uploadBank).LeadsTo word target) :
    (Uploads.ofImage saved bank.uploadBank).from? target =
      (Uploads.ofImage image bank.uploadBank).from? target :=
  Uploads.from?_of_apart (calls.shared word listed target leads)
    (calls.apart word listed target leads)

namespace Saving.Wrote

variable {limit : Bank → Nat} {bank : Bank} {image saved : Image} {songs moved : List Song}
  {body : List UInt8} {limits : Limits}

/-- A track of a placed song does not stand where the calls of the song lead to. -/
theorem ne_of_trackAt (w : Wrote limit bank saved songs moved body)
    (room : limit bank ≤ bank.room) {k : Nat} {song : Song} {encoding : SongEncoding}
    (stands : moved[k]? = some song) (encoded : song.encode song.address = .ok encoding)
    {address target : UInt16} (low : song.address.toNat ≤ address.toNat)
    (high : address.toNat < song.address.toNat + encoding.data.length)
    (apart : ∀ block ∈ chain saved bank.uploadBank, block.from? target = none) :
    target ≠ address := by
  rintro rfl
  obtain ⟨start, stop⟩ := w.within stands encoded
  have outside := apart _ (List.mem_of_getElem? (w.first_block room))
  have reached : bank.tableAddress ≤ target := by
    rw [UInt16.le_iff_toNat_le]
    omega
  have some_ : (payload moved body).drop (target.toNat - bank.tableAddress.toNat) ≠ [] := by
    rw [ne_eq, List.drop_eq_nil_iff]
    omega
  rw [Block.from?, if_pos reached] at outside
  simp only at outside
  cases rest : (payload moved body).drop (target.toNat - bank.tableAddress.toNat) with
  | nil => exact some_ rest
  | cons byte others => simp [rest] at outside

/-- A song that was read comes to the same music where it is placed. -/
theorem sameMusic (w : Wrote limit bank saved songs moved body)
    (room : limit bank ≤ bank.room) {k : Nat} {song read : Song}
    (unedited : songs[k]? = some song)
    (parsed : ((Uploads.ofImage image bank.uploadBank).song limits bank song.address).outcome =
      .ok read) (same : song.segments = read.segments)
    (calls : CallsKept image saved bank song) :
    ∃ placed, moved[k]? = some placed ∧ ∀ slot : SongSlot, slot.address = placed.address →
      SameMusic limits (Uploads.ofImage image bank.uploadBank) song
        (Uploads.ofImage saved bank.uploadBank)
        ((Uploads.ofImage saved bank.uploadBank).songOrPlaceholder limits bank slot).value := by
  obtain ⟨place, stands⟩ := w.placed.getElem? unedited
  obtain ⟨encoding, encoded, held, far⟩ := w.holds_song room stands
  have sameBank : (Uploads.ofImage saved bank.uploadBank).bank =
      (Uploads.ofImage image bank.uploadBank).bank := rfl
  have tracks : song.tracks = read.tracks := by rw [Song.tracks, Song.tracks, same]
  have origin := Uploads.tracks_of_song parsed
  have segmented : song.segments ≠ [] := same ▸ Uploads.segments_of_song parsed
  have reread : ∀ track ∈ (song.movedTo place).tracks, ∀ address,
      Song.TrackAt (Uploads.ofImage saved bank.uploadBank) (song.movedTo place).address
        encoding.data track address →
      ((Uploads.ofImage saved bank.uploadBank).track limits address).outcome =
        .ok ((Uploads.ofImage image bank.uploadBank).replayed limits track) := by
    intro track member address there
    cases there with
    | silent empty => rw [Uploads.track_zero, Uploads.replayed, if_pos empty]
    | stands nonzero filled mine found low high =>
      have member : track ∈ read.tracks := tracks ▸ member
      rcases origin track member with rfl | ⟨word, listed, trackRead⟩
      · simp [Track.silent] at filled
      · exact Uploads.track_reread sameBank trackRead filled (calls.timely word listed)
          (fun target leads => ⟨calls.from?_eq listed leads,
            w.ne_of_trackAt room stands encoded low high fun block member =>
              calls.apart word listed target leads block (List.mem_append_right _ member)⟩)
          nonzero mine found
  refine ⟨song.movedTo place, stands, ?_⟩
  intro slot target
  have nonzero : (song.movedTo place).address ≠ 0 := by
    intro zero
    simp [zero] at far
  have outcome := Uploads.song_read bank segmented encoded held far reread
  have value : ((Uploads.ofImage saved bank.uploadBank).songOrPlaceholder limits bank
      slot).value.segments =
      song.segments.map fun segment =>
        { tracks := segment.tracks.map
            ((Uploads.ofImage image bank.uploadBank).replayed limits) } := by
    rw [Uploads.songOrPlaceholder, target, if_neg nonzero]
    simp only [outcome]
  refine ⟨by rw [value, List.length_map], fun levels => ?_⟩
  have mapped : ((Uploads.ofImage saved bank.uploadBank).songOrPlaceholder limits bank
      slot).value.tracks =
      song.tracks.map ((Uploads.ofImage image bank.uploadBank).replayed limits) := by
    rw [Song.tracks, value, Song.tracks, List.flatMap_map, List.map_flatMap]
    simp only [Vector.toList_map]
  rw [mapped, List.map_map]
  apply List.map_congr_left
  intro track member
  rcases origin track (tracks ▸ member) with rfl | ⟨word, listed, trackRead⟩
  · rfl
  · exact Uploads.expansion_replayed sameBank trackRead (calls.timely word listed)
      (fun _ leads => calls.from?_eq listed leads) levels

end Saving.Wrote

namespace Soundtrack

/-- After any run of song operations and a save to the image that was loaded, a song that is still
as it was loaded comes to the same music when it is loaded again. If its bank was saved, the song
has to be among those that the table is looked at for, no other bank may have been saved over the
bank's block, and the song's calls have to be kept; if not, nothing may have been written to the
bank's blocks or to the shared blocks. -/
theorem expansions_kept {start s : Soundtrack} {original : Image} {bank : Bank} {j k : Nat}
    {song read : Song} (loaded : (start.load original).outcome = .ok ())
    (run : SongRun (start.load original).soundtrack s) (saved : (s.save original).outcome = .ok ())
    (before : ((start.load original).soundtrack.songsIn bank)[j]? = some song)
    (unedited : (s.songsIn bank)[k]? = some song)
    (parsed : (original.song bank start.config.limits song.address).outcome = .ok read)
    (dirty : bank ∈ s.dirtyBanks → k < bank.maxSongs ∧ s.BlockApart bank ∧
      CallsKept original (s.save original).image bank song)
    (clean : bank ∉ s.dirtyBanks →
      original.Untouched bank.uploadBank (s.SaveTakes original.headerOffset) ∧
        original.Untouched .common (s.SaveTakes original.headerOffset))
    {fresh : Soundtrack} (configured : fresh.config = start.config) :
    ∃ reloaded, ((fresh.load (s.save original).image).soundtrack.songsIn bank)[
        if bank ∈ s.dirtyBanks then k else j]? = some reloaded ∧
      SameMusic start.config.limits (Uploads.ofImage original bank.uploadBank) song
        (Uploads.ofImage (s.save original).image bank.uploadBank) reloaded := by
  obtain ⟨only, config⟩ := run.songsOnly (songsOnly_load loaded)
  rw [config_load] at config
  obtain ⟨there, -⟩ := load_ok loaded
  obtain ⟨slots, addresses, songs⟩ := songsIn_load start there bank
  rw [songs, List.getElem?_map, Option.map_eq_some_iff] at before
  obtain ⟨slot, listed, rfl⟩ := before
  have same := Uploads.segments_of_parsed (Image.song_ok parsed)
  have entered : (slots.map (·.address))[j]? = some slot.address := by
    rw [List.getElem?_map, listed]
    rfl
  by_cases member : bank ∈ s.dirtyBanks
  -- The save places the song, with its calls as they are, and it is read from its new place.
  · obtain ⟨inside, apart, calls⟩ := dirty member
    obtain ⟨moved, body, w, -⟩ := wrote_save only saved member apart
    have room : min (s.config.limit bank) bank.room ≤ bank.room := Nat.min_le_right ..
    obtain ⟨placed, stands, music⟩ := w.sameMusic room unedited (Image.song_ok parsed) same calls
    have hook : bank.isExpansion = true →
        (s.save original).image.expandedHook?.isSome = true := by
      intro own
      rw [expandedHook?_save only saved]
      exact expandedHook?_of_songAddresses own (addresses ▸ List.mem_of_getElem? entered)
    obtain ⟨others, again, reloaded⟩ := songsIn_load fresh (w.tabled room).isLoaded bank
    rw [config, ← configured] at w
    have place := w.getElem?_songAddresses hook inside stands
    rw [← again, List.getElem?_map, Option.map_eq_some_iff] at place
    obtain ⟨other, found, target⟩ := place
    refine ⟨_, ?_, music other target⟩
    rw [if_pos member, reloaded, List.getElem?_map, found, configured]
    rfl
  -- Nothing was written to what the song was read from, so it is read once more.
  · obtain ⟨own, shared⟩ := clean member
    have frame := takes_save only saved
    have uploads := uploads_of_frame frame own shared
    have loadedAgain : (s.save original).image.isLoaded = true := by
      rw [Image.isLoaded, frame.size]
      exact there
    obtain ⟨others, again, reloaded⟩ := songsIn_load fresh loadedAgain bank
    rw [songAddresses_save _ only saved own shared, configured, ← addresses] at again
    have place := (congrArg (·[j]?) again).trans entered
    rw [List.getElem?_map, Option.map_eq_some_iff] at place
    obtain ⟨other, found, target⟩ := place
    rw [uploads]
    refine ⟨_, ?_, SameMusic.of_segments (Uploads.segments_songOrPlaceholder target)⟩
    rw [if_neg member, reloaded, List.getElem?_map, found, configured, uploads]
    rfl

end Soundtrack

/-! ### An example -/

open Soundtrack

/-- The song with a loop over all of it. -/
def Song.looped (song : Song) : Song := { song with loopPoint := some 0 }

/-- The songs of the image with a loop in the first of the credits. -/
def loopedSongs : List Song :=
  creditsSongs.set 31 { Song.new "Credits 1" .credits with modified := true }.looped

/-- The block of the credits after the songs are saved. -/
def loopedBlock : Block := {
  offset := Bank.credits.offset + Block.headerSize
  address := Bank.credits.tableAddress
  bytes := Saving.blockPayload .credits
    { soundtrack := { songs := loopedSongs }, image := creditsImage } }

/-- Banks of songs stand behind the shared block. -/
theorem Image.untouched_ofBlocks {blocks : List SingleBlock}
    (distinct : (blocks.map SingleBlock.bank).Nodup) (fits : ∀ b ∈ blocks, b.Fits)
    {block : SingleBlock} (member : block ∈ blocks) (shared : block.bank = .common)
    {region : Nat → Prop}
    (taken : ∀ i, region i → ∃ bank size, Bank.Takes bank size (ofBlocks blocks).headerOffset i) :
    (ofBlocks blocks).Untouched .common region := by
  have short := (fits block member).2
  have stop := chainStop_ofBlocks distinct fits member
  have offset : UploadBank.common.offset = 0xC8000 := rfl
  rw [shared, block.length_bytes] at stop
  intro i low high written
  rw [locate_ofBlocks] at low high
  rw [stop] at high
  obtain ⟨bank, size, there⟩ := taken i written
  rw [headerOffset_ofBlocks] at there
  rcases there with ⟨start, -⟩ | ⟨place, known, byte⟩
  · have above : 0xD1EF5 ≤ bank.offset := by cases bank <;> decide
    omega
  · obtain ⟨_, _, _⟩ := Bank.pointerBytes_lt known
    omega

theorem untouched_creditsImage {s : Soundtrack} :
    creditsImage.Untouched .common (s.SaveTakes creditsImage.headerOffset) := by
  refine Image.untouched_ofBlocks distinct_creditsImage fits_creditsImage
    (List.mem_cons_self ..) rfl ?_
  rintro i ⟨bank, -, size, -, taken⟩
  exact ⟨bank, size, taken⟩

theorem saves_looped :
    ∃ s, SongRun (({} : Soundtrack).load creditsImage).soundtrack s ∧ s.songs = loopedSongs ∧
      s.dirtyBanks = [.credits] ∧ (s.save creditsImage).outcome = .ok () ∧
      chain (s.save creditsImage).image .credits = [loopedBlock] ∧
      chain (s.save creditsImage).image .common = [sharedBlock.placed] := by
  have found : creditsSongs[31]? = some (Song.new "Credits 1" .credits) := by decide +kernel
  obtain ⟨s, run, same, alone, saved, own⟩ := saves_creditsImage Song.looped found rfl
    (by decide +kernel) (by decide +kernel) (by decide +kernel)
  obtain ⟨only, -⟩ := run.songsOnly (songsOnly_load loads_creditsImage)
  have shared := chain_of_frame (takes_save only saved) untouched_creditsImage
  exact ⟨s, run, same, alone, saved, own, shared.trans chain_creditsImage.1⟩

theorem parses_creditsImage {address : UInt16}
    (read : ((Uploads.ofImage creditsImage .credits).song {} .credits address).outcome.isOk =
      true) :
    ∃ song, (creditsImage.song .credits {} address).outcome = .ok song := by
  have uploads : (Report.ofExcept (creditsImage.uploads Bank.credits.uploadBank)).outcome =
      .ok (Uploads.ofImage creditsImage .credits) := by
    rw [Report.outcome_ofExcept, Image.uploads, if_pos isLoaded_creditsImage]
    rfl
  rw [Image.song, Report.outcome_bind_of_ok uploads]
  cases outcome : ((Uploads.ofImage creditsImage .credits).song {} .credits address).outcome with
  | error e => simp [outcome, Except.isOk, Except.toBool] at read
  | ok song => exact ⟨song, rfl⟩

/-- Without further conditions the music is not kept: the loop moves the next song, whose call then
leads to the song's own track. -/
theorem music_not_kept :
    ¬∀ (start s fresh : Soundtrack) (original : Image) (bank : Bank) (k : Nat) (song read : Song),
      (∀ bank, start.config.limit bank ≤ bank.defaultLimit) →
      (start.load original).outcome = .ok () → SongRun (start.load original).soundtrack s →
      (s.save original).outcome = .ok () →
      ((start.load original).soundtrack.songsIn bank)[k]? = some song →
      (s.songsIn bank)[k]? = some song →
      (original.song bank start.config.limits song.address).outcome = .ok read →
      fresh.config = start.config →
      ∃ reloaded, ((fresh.load (s.save original).image).soundtrack.songsIn bank)[k]? =
          some reloaded ∧
        ∀ levels, reloaded.tracks.map ((Uploads.ofImage (s.save original).image
            bank.uploadBank).expansion start.config.limits levels) =
          song.tracks.map ((Uploads.ofImage original bank.uploadBank).expansion
            start.config.limits levels) := by
  intro kept
  obtain ⟨s, run, same, alone, saved, chained, shared⟩ := saves_looped
  have there := isLoaded_of_chain (congrArg (·[0]?) chained)
  have songs : s.songsIn .credits = songsOf .credits loopedSongs := by
    rw [← same]
    rfl
  have before : (({} : Soundtrack).load creditsImage).soundtrack.songsIn .credits =
      songsOf .credits creditsSongs := by
    rw [← songs_creditsImage]
    rfl
  obtain ⟨read, parsed⟩ : ∃ song, (creditsImage.song .credits {} 0xD006).outcome = .ok song :=
    parses_creditsImage (by rw [uploads_creditsImage]; decide +kernel)
  obtain ⟨reloaded, found, music⟩ := kept {} s {} creditsImage .credits 1
    (callingSong "Credits 2" 0xD006 0xD032) read (fun _ => Nat.le_refl _) loads_creditsImage run
    saved (by rw [before]; decide +kernel) (by rw [songs]; decide +kernel) parsed rfl
  obtain ⟨slots, addresses, listed⟩ := songsIn_load {} there .credits
  have own : Uploads.ofImage (s.save creditsImage).image Bank.credits.uploadBank =
      { bank := .credits, blocks := [loopedBlock, sharedBlock.placed] } := by
    change Uploads.ofImage (s.save creditsImage).image .credits = _
    rw [Uploads.ofImage, chained, shared]
    rfl
  have places : songAddresses (s.save creditsImage).image {} .credits =
      [0xD008, 0xD01E, 0xD037] := by
    rw [songAddresses, if_neg (by decide), tableWords, own]
    decide +kernel
  have place : (slots.map (·.address))[1]? = some 0xD01E := by
    rw [addresses]
    change (songAddresses (s.save creditsImage).image {} .credits)[1]? = _
    rw [places]
    rfl
  rw [List.getElem?_map, Option.map_eq_some_iff] at place
  obtain ⟨slot, second, target⟩ := place
  rw [listed, List.getElem?_map, second, Option.map_some, Option.some.injEq, own] at found
  have silent : reloaded.tracks = (Song.new "" .credits).tracks := by
    rw [← found, Song.tracks, Uploads.segments_songOrPlaceholder
      (show slot.address = (⟨"", 0xD01E⟩ : SongSlot).address from target)]
    decide +kernel
  have old : Uploads.ofImage creditsImage Bank.credits.uploadBank = _ :=
    uploads_creditsImage .credits
  have music := music 1
  rw [own, old, silent] at music
  exact absurd music (by decide +kernel)

theorem callsKept_creditsImage {saved : Image} (chained : chain saved .credits = [loopedBlock])
    (shared : chain saved .common = [sharedBlock.placed]) :
    CallsKept creditsImage saved .credits (callingSong "Credits 3" 0xD01A 0x3D96) := by
  have old := uploads_creditsImage .credits
  have channels : (Uploads.ofImage creditsImage .credits).channels 0xD01A =
      [0xD03A, 0, 0, 0, 0, 0, 0, 0] := by
    rw [old]
    decide +kernel
  have first : (Uploads.ofImage creditsImage .credits).from? 0xD03A =
      some [0xEF, 0x96, 0x3D, 0x01, 0x00] := by
    rw [old]
    decide +kernel
  have silent : (Uploads.ofImage creditsImage .credits).from? 0 = none := by
    rw [old]
    decide +kernel
  have fragment : (Uploads.ofImage creditsImage .credits).from? 0x3D96 =
      some [0x18, 0xA4, 0x00] := by
    rw [old]
    decide +kernel
  have tokens : Token.lex [0xEF, 0x96, 0x3D, 0x01, 0x00] =
      [.command { opcode := 0xEF, first := 0x96, second := 0x3D, third := 0x01 }, .finish] := by
    decide +kernel
  have notes : Token.lex [0x18, 0xA4, 0x00] =
      [.timing 0x18 none, .note 0xA4, .finish] := by
    decide +kernel
  have only : ∀ word ∈ (Uploads.ofImage creditsImage .credits).channels 0xD01A, ∀ bytes,
      (Uploads.ofImage creditsImage .credits).from? word = some bytes →
        bytes = [0xEF, 0x96, 0x3D, 0x01, 0x00] := by
    intro word listed bytes found
    rw [channels] at listed
    obtain rfl | rfl : word = 0xD03A ∨ word = 0 := by simpa using listed
    · rw [first, Option.some.injEq] at found
      exact found.symm
    · simp [silent] at found
  constructor
  · intro word listed bytes found
    rw [only word listed bytes found, tokens]
    exact ⟨fun _ _ => rfl, trivial⟩
  · intro word listed target leads block member
    obtain ⟨bytes, c, found, call, called, repeated, reached⟩ := leads
    rw [only word listed bytes found, tokens] at call
    have target : target = 0x3D96 := by
      obtain rfl : c = { opcode := 0xEF, first := 0x96, second := 0x3D, third := 0x01 } := by
        simpa using call
      cases reached with
      | refl => rfl
      | call found listed =>
        have same := fragment.symm.trans found
        rw [Option.some.injEq] at same
        rw [← same, notes] at listed
        simp at listed
    subst target
    change block ∈ chain creditsImage .credits ++ chain saved .credits at member
    rw [chain_creditsImage.2, chained] at member
    obtain rfl | rfl : block = creditsBlock.placed ∨ block = loopedBlock := by simpa using member
    · decide +kernel
    · decide +kernel
  · intro _ _ _ _
    exact shared.trans chain_creditsImage.1.symm

theorem third_song_kept :
    ∃ s read reloaded, SongRun (({} : Soundtrack).load creditsImage).soundtrack s ∧
      s.songs = loopedSongs ∧ (s.save creditsImage).outcome = .ok () ∧
      (creditsImage.song .credits {} 0xD01A).outcome = .ok read ∧
      ((({} : Soundtrack).load (s.save creditsImage).image).soundtrack.songsIn .credits)[2]? =
        some reloaded ∧
      SameMusic {} (Uploads.ofImage creditsImage .credits)
        (callingSong "Credits 3" 0xD01A 0x3D96)
        (Uploads.ofImage (s.save creditsImage).image .credits) reloaded := by
  obtain ⟨s, run, same, alone, saved, chained, shared⟩ := saves_looped
  have songs : s.songsIn .credits = songsOf .credits loopedSongs := by
    rw [← same]
    rfl
  have before : (({} : Soundtrack).load creditsImage).soundtrack.songsIn .credits =
      songsOf .credits creditsSongs := by
    rw [← songs_creditsImage]
    rfl
  have here : ((({} : Soundtrack).load creditsImage).soundtrack.songsIn .credits)[2]? =
      some (callingSong "Credits 3" 0xD01A 0x3D96) := by
    rw [before]
    decide +kernel
  have unedited : (s.songsIn .credits)[2]? = some (callingSong "Credits 3" 0xD01A 0x3D96) := by
    rw [songs]
    decide +kernel
  obtain ⟨read, parsed⟩ : ∃ song, (creditsImage.song .credits {} 0xD01A).outcome = .ok song :=
    parses_creditsImage (by rw [uploads_creditsImage]; decide +kernel)
  have dirty : Bank.credits ∈ s.dirtyBanks := alone ▸ List.mem_singleton_self _
  obtain ⟨reloaded, found, music⟩ := expansions_kept loads_creditsImage run saved here unedited parsed
    (fun _ => ⟨by decide, .of_game rfl (fun other => absurd other (by decide)),
      callsKept_creditsImage chained shared⟩)
    (fun clean => absurd dirty clean) (rfl : ({} : Soundtrack).config = ({} : Soundtrack).config)
  rw [ite_self] at found
  exact ⟨s, read, reloaded, run, same, saved, parsed, found, music⟩

end SnesMusic
