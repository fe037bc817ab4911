import SnesMusic.Proofs.Soundtrack.SongRun
import SnesMusic.Proofs.Soundtrack.SongTable

/-!
# Saving and loading

What is loaded from an image that songs were saved to. Main statement: after any changes to songs,
the songs of a bank that was saved are loaded again as they were saved, in canonical form and in
their order, where no call is repeated and no track runs out of ticks (`songs_reload`).
-/
namespace SnesMusic

open LittleEndian

theorem Uploads.Holds.part {u : Uploads} {base : UInt16} {front data behind : List UInt8}
    (held : u.Holds base (front ++ (data ++ behind))) (ne : data ≠ []) :
    u.Holds (base + UInt16.ofNat front.length) data := by
  have positive := List.length_pos_iff.mpr ne
  have length : (front ++ (data ++ behind)).length =
      front.length + (data.length + behind.length) := by simp
  have inside : front.length < (front ++ (data ++ behind)).length := by omega
  have place := held.toNat_add inside
  have fits := held.fits
  refine ⟨by omega, ?_⟩
  intro offset inside
  obtain ⟨more, found⟩ := held.resolves (front.length + offset) (by omega)
  have address : base + UInt16.ofNat (front.length + offset) =
      base + UInt16.ofNat front.length + UInt16.ofNat offset := by
    rw [UInt16.ofNat_add, UInt16.add_assoc]
  refine ⟨behind ++ more, ?_⟩
  rw [← address, found, ← List.drop_drop, List.drop_left,
    List.drop_append_of_le_length (Nat.le_of_lt inside), List.append_assoc]

theorem Bank.tableAddress_ge (bank : Bank) : 0x100 ≤ bank.tableAddress.toNat := by
  cases bank <;> decide

namespace Saving.Wrote

variable {limit : Bank → Nat} {bank : Bank} {image : Image} {songs moved : List Song}
  {body : List UInt8} {config : Config}

theorem length_payload : (payload moved body).length = (moved.length + 1) * 2 + body.length := by
  rw [payload, ← tableBytes, length_tableBytes, List.length_map]

/-- The block of a saved bank begins with the table of its songs. -/
theorem tabled (w : Wrote limit bank image songs moved body) (room : limit bank ≤ bank.room) :
    Tabled bank image (moved.map Song.address) body :=
  w.placed.tabled w.has (Nat.le_trans w.short room)

theorem first_block (w : Wrote limit bank image songs moved body)
    (room : limit bank ≤ bank.room) :
    (chain image bank.uploadBank)[0]? = some {
      offset := image.locate bank.offset + Block.headerSize
      address := bank.tableAddress
      bytes := payload moved body } :=
  (w.tabled room).first_block

theorem holds (w : Wrote limit bank image songs moved body) (room : limit bank ≤ bank.room) :
    (Uploads.ofImage image bank.uploadBank).Holds bank.tableAddress (payload moved body) := by
  obtain ⟨rest, blocks⟩ := Uploads.ofImage_blocks (w.first_block room)
  have bound := bank.tableAddress_add_room
  have short := w.short
  have fits : bank.tableAddress.toNat + (payload moved body).length ≤ UInt16.size := by omega
  exact Uploads.Holds.of_first_block blocks fits (List.prefix_refl _)

/-- A placed song's bytes are uploaded to its address. -/
theorem holds_song (w : Wrote limit bank image songs moved body)
    (room : limit bank ≤ bank.room) {k : Nat} {song : Song} (stands : moved[k]? = some song) :
    ∃ encoding, song.encode song.address = .ok encoding ∧
      (Uploads.ofImage image bank.uploadBank).Holds song.address encoding.data ∧
      0x100 ≤ song.address.toNat := by
  obtain ⟨front, encoding, behind, there⟩ := w.placed.stands stands
  have bound := bank.tableAddress_ge
  have held := w.holds room
  have table : ((moved.map Song.address).flatMap bytes ++ [0, 0]).length =
      (songs.length + 1) * 2 := by
    simp only [List.length_append, length_flatMap_bytes, List.length_map, w.placed.length_eq,
      List.length_cons, List.length_nil]
    omega
  have filled := Song.data_ne_nil there.encoded
  have split : payload moved body = ((moved.map Song.address).flatMap bytes ++ [0, 0] ++ front) ++
      (encoding.data ++ behind) := by
    rw [payload, there.split, ← List.append_assoc]
  rw [split] at held
  have place := there.place
  unfold firstAddress at place
  have address : song.address = bank.tableAddress +
      UInt16.ofNat ((moved.map Song.address).flatMap bytes ++ [0, 0] ++ front).length := by
    have inside : ((moved.map Song.address).flatMap bytes ++ [0, 0] ++ front).length <
        (((moved.map Song.address).flatMap bytes ++ [0, 0] ++ front) ++
          (encoding.data ++ behind)).length := by
      have positive := List.length_pos_iff.mpr filled
      simp only [List.length_append]
      omega
    apply UInt16.toNat.inj
    rw [held.toNat_add inside, place, List.length_append, table, Nat.add_assoc]
  refine ⟨encoding, there.encoded, ?_, by omega⟩
  rw [address]
  exact held.part filled

/-- A placed song's bytes stand within the block. -/
theorem within (w : Wrote limit bank image songs moved body) {k : Nat} {song : Song}
    {encoding : SongEncoding} (stands : moved[k]? = some song)
    (encoded : song.encode song.address = .ok encoding) :
    bank.tableAddress.toNat ≤ song.address.toNat ∧ song.address.toNat + encoding.data.length ≤
      bank.tableAddress.toNat + (payload moved body).length := by
  obtain ⟨front, own, behind, there⟩ := w.placed.stands stands
  have same : own = encoding := by
    rw [there.encoded, Except.ok.injEq] at encoded
    exact encoded
  subst same
  have place := there.place
  have length : (payload moved body).length = (moved.length + 1) * 2 + body.length :=
    length_payload
  have parts := congrArg List.length there.split
  rw [w.placed.length_eq] at length
  simp only [List.length_append] at parts
  unfold firstAddress at place
  omega

/-! A bank is looked for where a save has placed it, under the capacities it was saved with. -/

section Addresses

variable (w : Wrote (fun bank => min (config.limit bank) bank.room) bank image songs moved body)
  (hook : bank.isExpansion = true → image.expandedHook?.isSome = true)
include w hook

theorem songAddresses_eq : songAddresses image config bank =
    (moved.map Song.address).take bank.maxSongs ++
      List.replicate (bank.vanillaSlots - songs.length) 0 := by
  have same := (w.tabled (Nat.min_le_right ..)).songAddresses_eq
    (Nat.le_trans w.short (Nat.min_le_left ..)) hook
  rw [List.length_map, w.placed.length_eq] at same
  exact same

/-- A bank with the game's own songs at least, and no more than its table is looked at for, is
looked for at the addresses of its songs. -/
theorem songAddresses_of_listed (enough : bank.vanillaSlots ≤ songs.length)
    (listed : songs.length ≤ bank.maxSongs) :
    songAddresses image config bank = moved.map Song.address := by
  have count := w.placed.length_eq
  rw [w.songAddresses_eq hook, List.take_of_length_le (by rw [List.length_map]; omega),
    Nat.sub_eq_zero_of_le enough, List.replicate_zero, List.append_nil]

theorem getElem?_songAddresses {k : Nat} {song : Song} (inside : k < bank.maxSongs)
    (stands : moved[k]? = some song) :
    (songAddresses image config bank)[k]? = some song.address := by
  have within := (List.getElem?_eq_some_iff.mp stands).1
  rw [w.songAddresses_eq hook,
    List.getElem?_append_left (by rw [List.length_take, List.length_map]; omega),
    List.getElem?_take, if_pos inside, List.getElem?_map, stands, Option.map_some]

end Addresses

end Saving.Wrote

/-! ### Reloaded songs -/

theorem Image.Agree.expandedHook? {image saved : Image}
    (agree : saved.Agree image (image.locate hookOffset) (image.locate hookOffset + 4)) :
    saved.expandedHook? = image.expandedHook? := by
  rw [Image.expandedHook?, Image.expandedHook?, agree.locate,
    Image.readBytes_congr agree (Nat.le_refl _) (Nat.le_refl _)]

/-- Saving a bank does not touch the jump of the expanded music patch. -/
theorem Bank.Takes.not_hook {bank : Bank} {size : Nat} {image : Image} {i : Nat}
    (taken : bank.Takes size image.headerOffset i) :
    i < image.locate Image.hookOffset ∨ image.locate Image.hookOffset + 4 ≤ i := by
  rw [Image.locate, Image.hookOffset]
  rcases taken with ⟨start, -⟩ | ⟨place, known, byte⟩
  · have above : 0xC8000 ≤ bank.offset := by cases bank <;> decide
    omega
  · obtain ⟨_, _, _⟩ := Bank.pointerBytes_lt known
    omega

/-- The jump of the expanded music patch is there after a save if it was before. -/
theorem Soundtrack.expandedHook?_save {s : Soundtrack} {image : Image} (only : s.SongsOnly)
    (saved : (s.save image).outcome = .ok ()) :
    (s.save image).image.expandedHook? = image.expandedHook? := by
  refine ((takes_save only saved).agree ?_).expandedHook?
  rintro i low high ⟨bank, -, size, -, taken⟩
  have apart := taken.not_hook
  omega

/-- What is stood in for, or read, at the address of a song that is uploaded there. -/
theorem Uploads.songOrPlaceholder_of_read {u : Uploads} {limits : Limits} (bank : Bank) {s : Song}
    {encoding : SongEncoding} {slot : SongSlot} {result : Track → Track}
    (target : slot.address = s.address) (encoded : s.encode s.address = .ok encoding)
    (held : u.Holds s.address encoding.data) (far : 0x100 ≤ s.address.toNat)
    (read : ∀ track ∈ s.tracks, ∀ address, Song.TrackAt u s.address encoding.data track address →
      (u.track limits address).outcome = .ok (result track)) :
    (u.songOrPlaceholder limits bank slot).value =
      { s with segments := s.readAs result, name := slot.name, bank, modified := false } := by
  have nonzero : s.address ≠ 0 := by
    intro zero
    simp [zero] at far
  rw [songOrPlaceholder, target, if_neg nonzero]
  simp only [song_read_as bank encoded held far read]

/-- Where the tracks of a song with segments are heard to their end, it is the song in canonical
form. -/
theorem Uploads.songOrPlaceholder_of_heard {u : Uploads} {limits : Limits} (bank : Bank) {s : Song}
    {encoding : SongEncoding} {slot : SongSlot} (target : slot.address = s.address)
    (segmented : s.segments ≠ []) (encoded : s.encode s.address = .ok encoding)
    (held : u.Holds s.address encoding.data) (far : 0x100 ≤ s.address.toNat)
    (heard : ∀ track ∈ s.tracks, track.empty = false →
      1 ≤ limits.depth ∧ Track.Heard u limits track.events) :
    (u.songOrPlaceholder limits bank slot).value =
      { s.canonical with name := slot.name, bank, modified := false } := by
  rw [songOrPlaceholder_of_read bank target encoded held far (track_read_of_heard heard),
    Song.readAs_of_ne segmented]
  rfl

theorem Uploads.songOrPlaceholder_value {u : Uploads} {limits : Limits} (bank : Bank) {s : Song}
    {encoding : SongEncoding} {slot : SongSlot} (target : slot.address = s.address)
    (segmented : s.segments ≠ []) (encoded : s.encode s.address = .ok encoding)
    (held : u.Holds s.address encoding.data) (far : 0x100 ≤ s.address.toNat)
    (depth : 1 ≤ limits.depth)
    (heard : ∀ track ∈ s.tracks, track.empty = false → Track.Heard u limits track.events) :
    (u.songOrPlaceholder limits bank slot).value =
      { s.canonical with name := slot.name, bank, modified := false } :=
  songOrPlaceholder_of_heard bank target segmented encoded held far fun track member filled =>
    ⟨depth, heard track member filled⟩

/-- Lists that agree on a key have the same values where the key decides. -/
theorem map_eq_of_map_eq {α β κ γ : Type} {xs : List α} {ys : List β} {key : α → κ} {key' : β → κ}
    {f : α → γ} {g : β → γ} (keys : xs.map key = ys.map key')
    (each : ∀ (k : Nat) (x : α) (y : β), xs[k]? = some x → ys[k]? = some y → key x = key' y →
      f x = g y) : xs.map f = ys.map g := by
  apply List.ext_getElem?
  intro k
  have same : (xs.map key)[k]? = (ys.map key')[k]? := by rw [keys]
  rw [List.getElem?_map, List.getElem?_map] at same ⊢
  cases first : xs[k]? with
  | none =>
    cases second : ys[k]? with
    | none => rfl
    | some y => simp [first, second] at same
  | some x =>
    cases second : ys[k]? with
    | none => simp [first, second] at same
    | some y =>
      simp only [first, second, Option.map_some, Option.some.injEq] at same ⊢
      exact each k x y first second same

namespace Soundtrack

/-- After any run of song operations, saving and loading again brings back the songs of a bank that
was saved: as many, in the same order, with the same loops, at their addresses and in canonical
form. The bank has to hold the game's own songs at least and no more than its table is looked at
for, its calls must not be repeated and its tracks must end before the ticks run out. -/
theorem songs_reload {start s : Soundtrack} {original image : Image} {bank : Bank}
    (capacities : ∀ bank, start.config.limit bank ≤ bank.defaultLimit)
    (depth : 1 ≤ start.config.limits.depth)
    (loaded : (start.load original).outcome = .ok ())
    (run : SongRun (start.load original).soundtrack s)
    (saved : (s.save image).outcome = .ok ()) (dirty : bank ∈ s.dirtyBanks)
    (enough : bank.vanillaSlots ≤ (s.songsIn bank).length)
    (listed : (s.songsIn bank).length ≤ bank.maxSongs)
    (hook : bank.isExpansion = true → image.expandedHook?.isSome = true)
    (segmented : ∀ song ∈ s.songsIn bank, song.segments ≠ [])
    (uncalled : ∀ song ∈ s.songsIn bank, ∀ track ∈ song.tracks, track.empty = false →
      ∀ e ∈ Track.beforeEnd track.events, ∀ target repeats,
        e.call? = some (target, repeats) → repeats = 0)
    (short : ∀ song ∈ s.songsIn bank, ∀ track ∈ song.tracks, track.empty = false →
      Track.ticksBeforeEnd track.events < start.config.limits.ticks)
    {fresh : Soundtrack} (configured : fresh.config = start.config) :
    let kept := (s.save image).soundtrack.songsIn bank
    let reloaded := (fresh.load (s.save image).image).soundtrack.songsIn bank
    reloaded.map (fun song => (song.segments, song.loopPoint, song.address)) =
        kept.map (fun song => (song.canonical.segments, song.loopPoint, song.address)) ∧
      kept.map (fun song => (song.name, song.segments, song.loopPoint)) =
        (s.songsIn bank).map (fun song => (song.name, song.segments, song.loopPoint)) := by
  intro kept reloaded
  obtain ⟨only, config⟩ := run.songsOnly (songsOnly_load loaded)
  rw [config_load] at config
  have le : ∀ bank, s.config.limit bank ≤ bank.defaultLimit := fun bank => config ▸ capacities bank
  obtain ⟨moved, body, w, final⟩ := wrote_save only saved dirty
    (.of_default (fun _ member _ sized =>
      payloadSize_le_default (save_ok only saved).1 le member sized) dirty)
  have limit : fresh.config.limit = s.config.limit := by rw [configured, config]
  rw [← limit] at w
  have room : min (fresh.config.limit bank) bank.room ≤ bank.room := Nat.min_le_right ..
  obtain ⟨slots, same, songs⟩ := songsIn_load fresh (w.tabled room).isLoaded bank
  rw [w.songAddresses_of_listed (fun expansion => expandedHook?_save only saved ▸ hook expansion)
    enough listed] at same
  constructor
  · show ((fresh.load (s.save image).image).soundtrack.songsIn bank).map _ =
      ((s.save image).soundtrack.songsIn bank).map _
    rw [songs, final, List.map_map, List.map_map]
    refine map_eq_of_map_eq same ?_
    intro k slot song _ stands target
    obtain ⟨encoding, encoded, held, far⟩ := w.holds_song room stands
    obtain ⟨before, member, place, moved⟩ := w.placed.origin song (List.mem_of_getElem? stands)
    have heard : ∀ track ∈ song.tracks, track.empty = false →
        Track.Heard (Uploads.ofImage (s.save image).image bank.uploadBank) fresh.config.limits
          track.events := by
      intro track inside filled
      rw [moved] at inside
      rw [configured]
      exact ⟨fun e heard target repeats called =>
        Or.inl (uncalled before member track inside filled e heard target repeats called),
        short before member track inside filled⟩
    have filled : song.segments ≠ [] := moved ▸ segmented before member
    have value := Uploads.songOrPlaceholder_value bank target filled encoded held far
      (configured ▸ depth) heard
    simp only [Function.comp_apply, value]
    rfl
  · show ((s.save image).soundtrack.songsIn bank).map _ = _
    rw [final, List.map_map]
    exact w.placed.map_eq fun _ _ => rfl

end Soundtrack

set_option maxRecDepth 4096 in
/-- Images of single blocks lack the patch. -/
theorem Image.expandedHook?_ofBlocks (blocks : List SingleBlock) :
    (ofBlocks blocks).expandedHook? = none := by
  have blank : (ofBlocks blocks).Has hookOffset (List.replicate 4 0) := by
    refine has_ofBlocks_of_apart (fun b _ => Or.inl ?_) (by decide)
    cases b.bank <;> decide
  have read := readBytes_of_has blank (by decide)
  have place : (ofBlocks blocks).locate hookOffset = hookOffset := locate_ofBlocks _ _
  rw [expandedHook?, place, show (ofBlocks blocks).readBytes hookOffset 4 = _ from read]
  rfl

/-! ### An example -/

/-- Instruments and an empty sample directory, with a fragment behind them. -/
def sharedBlock : SingleBlock :=
  { bank := .common, address := 0x3C00, payload := List.replicate 406 0 ++ [0x18, 0xA4, 0x00] }

/-- A table of three songs. -/
def creditsBlock : SingleBlock := {
  bank := .credits
  address := 0xD000
  payload := [
    0x00, 0x00, 0x06, 0xD0, 0x1A, 0xD0,
    0x0A, 0xD0, 0x00, 0x00,
    0x35, 0xD0, 0x00, 0x00, 0x00, 0x00, 0x00, 0x00, 0x00, 0x00, 0x00, 0x00, 0x00, 0x00, 0x00, 0x00,
    0x1E, 0xD0, 0x00, 0x00,
    0x3A, 0xD0, 0x00, 0x00, 0x00, 0x00, 0x00, 0x00, 0x00, 0x00, 0x00, 0x00, 0x00, 0x00, 0x00, 0x00,
    0x00, 0x00, 0x00, 0x00, 0x18, 0xA4, 0x00,
    0xEF, 0x32, 0xD0, 0x01, 0x00,
    0xEF, 0x96, 0x3D, 0x01, 0x00] }

def creditsImage : Image := .ofBlocks [sharedBlock, creditsBlock]

theorem fits_creditsImage : ∀ b ∈ [sharedBlock, creditsBlock], b.Fits := by decide +kernel

theorem distinct_creditsImage : ([sharedBlock, creditsBlock].map SingleBlock.bank).Nodup := by
  decide

theorem isLoaded_creditsImage : creditsImage.isLoaded = true := Image.isLoaded_ofBlocks _

theorem chain_creditsImage : chain creditsImage .common = [sharedBlock.placed] ∧
    chain creditsImage .credits = [creditsBlock.placed] := by
  have first : sharedBlock ∈ [sharedBlock, creditsBlock] := List.mem_cons_self ..
  have second : creditsBlock ∈ [sharedBlock, creditsBlock] :=
    List.mem_cons_of_mem _ (List.mem_singleton_self _)
  have shared := Image.chain_ofBlocks distinct_creditsImage fits_creditsImage first
  have own := Image.chain_ofBlocks distinct_creditsImage fits_creditsImage second
  exact ⟨shared, own⟩

theorem uploads_creditsImage (bank : UploadBank) : Uploads.ofImage creditsImage bank = {
    bank
    blocks := (match bank with
      | .credits => [creditsBlock.placed]
      | _ => []) ++ [sharedBlock.placed] } := by
  rw [creditsImage, Image.uploads_ofBlocks distinct_creditsImage fits_creditsImage]
  cases bank <;> rfl

theorem loads_creditsImage : (({} : Soundtrack).load creditsImage).outcome = .ok () := by
  refine Soundtrack.outcome_load _ isLoaded_creditsImage ?_ ?_
  · rw [uploads_creditsImage]
    decide +kernel
  · rw [uploads_creditsImage]
    decide +kernel

theorem expandedHook?_creditsImage : creditsImage.expandedHook? = none :=
  Image.expandedHook?_ofBlocks _

/-- The song with a track that calls a fragment once. -/
def callingSong (name : String) (address target : UInt16) : Song := {
  name
  segments := [{
    tracks := (Vector.replicate 8 Track.silent).setIfInBounds 0
      (.ofEvents [.call target 1, .finish]) }]
  loopPoint := none
  bank := .credits
  address }

def creditsSongs : List Song :=
  ((vanillaSongs.map fun song => Song.new song.1 song.2).set 32
    (callingSong "Credits 2" 0xD006 0xD032)).set 33 (callingSong "Credits 3" 0xD01A 0x3D96)

theorem songs_creditsImage :
    (({} : Soundtrack).load creditsImage).soundtrack.songs = creditsSongs := by
  rw [songs_load _ isLoaded_creditsImage, loadSongs, expandedHook?_creditsImage]
  simp only [loadTable, uploads_creditsImage]
  decide +kernel

/-- A change to a song of the image is saved where it fits. -/
theorem saves_creditsImage {index : Nat} {song : Song} {songs : List Song} (change : Song → Song)
    (found : creditsSongs[index]? = some song)
    (changed : creditsSongs.set index (change { song with modified := true }) = songs)
    (own : ∀ other ∈ songs, other.modified = true → other.bank = song.bank)
    (fits : (({ songs } : Soundtrack).checkBank song.bank).isOk = true)
    (placed : (Saving.placement song.bank
      { soundtrack := { songs }, image := creditsImage }).outcome.isOk = true) :
    ∃ s, SongRun (({} : Soundtrack).load creditsImage).soundtrack s ∧ s.songs = songs ∧
      s.dirtyBanks = [song.bank] ∧ (s.save creditsImage).outcome = .ok () ∧
      chain (s.save creditsImage).image song.bank.uploadBank = [{
        offset := song.bank.offset + Block.headerSize
        address := song.bank.tableAddress
        bytes := Saving.blockPayload song.bank
          { soundtrack := { songs }, image := creditsImage } }] := by
  have isOk : ∀ {outcome : Except MusicError Unit}, outcome.isOk = true → outcome = .ok () := by
    intro outcome ok
    cases outcome with
    | error e => simp [Except.isOk, Except.toBool] at ok
    | ok u => rfl
  rw [← songs_creditsImage] at found
  obtain ⟨s, done, config, loaded, touched, same⟩ :=
    Soundtrack.updateSong_load loads_creditsImage found change
  rw [songs_creditsImage, changed] at same
  have run : SongRun (({} : Soundtrack).load creditsImage).soundtrack s :=
    .tail (.refl _) (.update done)
  have only := (run.songsOnly (Soundtrack.songsOnly_load loads_creditsImage)).1
  have alone := Soundtrack.dirtyBanks_of_alone touched (same ▸ own)
  have check : s.checkBank song.bank = ({ songs } : Soundtrack).checkBank song.bank :=
    checkBank_congr (show s.songs = ({ songs } : Soundtrack).songs from same) config _
  have layout : Saving.placement song.bank { soundtrack := s, image := creditsImage } =
      Saving.placement song.bank { soundtrack := { songs }, image := creditsImage } := by
    simp only [Saving.placement, same]
  have payload : Saving.blockPayload song.bank { soundtrack := s, image := creditsImage } =
      Saving.blockPayload song.bank { soundtrack := { songs }, image := creditsImage } := by
    rw [Saving.blockPayload, Saving.blockPayload, layout]
  have place : creditsImage.locate song.bank.offset = song.bank.offset := Image.locate_ofBlocks _ _
  have room : creditsImage.locate song.bank.offset +
      (s.config.limit song.bank + 2 * Block.headerSize) ≤ creditsImage.size := by
    have size : creditsImage.size = 0x1B0000 := Image.size_ofBlocks _
    rw [place, size, config]
    cases song.bank <;> decide
  have checked : s.checkBank song.bank = .ok () := check ▸ isOk fits
  obtain ⟨saved, image, ok⟩ := Soundtrack.save_of_alone only loaded alone checked
    (layout ▸ isOk placed) room
  obtain ⟨size, sized, -, within⟩ := checkBank_ok checked
  have short := Nat.le_trans
    (Nat.le_of_eq (Saving.length_blockPayload_eq (Saving.saveSongs_ok ok).1 sized)) within
  have header := Saving.headerOffset_saveSongs ok
  refine ⟨s, run, same, alone, saved, ?_⟩
  rw [image, Saving.chain_saveSongs ok short, payload, Image.locate,
    header, ← Image.locate, place]

/-- Puts the short song's segments in place of a song's own. -/
def Song.shortened (song : Song) : Song :=
  { song with segments := shortSong.segments, loopPoint := shortSong.loopPoint }

theorem short_song_reloads :
    ∃ s, SongRun (({} : Soundtrack).load creditsImage).soundtrack s ∧
      s.songs = creditsSongs.set 11
        { Song.new "Soldier" .dungeon with modified := true }.shortened ∧
      (s.save creditsImage).outcome = .ok () ∧ Bank.dungeon ∈ s.dirtyBanks ∧
      let kept := (s.save creditsImage).soundtrack.songsIn .dungeon
      let reloaded := (({} : Soundtrack).load
        (s.save creditsImage).image).soundtrack.songsIn .dungeon
      reloaded.map (fun song => (song.segments, song.loopPoint, song.address)) =
          kept.map (fun song => (song.canonical.segments, song.loopPoint, song.address)) ∧
        kept.map (fun song => (song.name, song.segments, song.loopPoint)) =
          (s.songsIn .dungeon).map (fun song => (song.name, song.segments, song.loopPoint)) := by
  have found : creditsSongs[11]? = some (Song.new "Soldier" .dungeon) := by decide +kernel
  obtain ⟨s, run, same, alone, saved, -⟩ := saves_creditsImage Song.shortened found rfl
    (by decide +kernel) (by decide +kernel) (by decide +kernel)
  have dirty : Bank.dungeon ∈ s.dirtyBanks := alone ▸ List.mem_singleton_self _
  have songs : s.songsIn .dungeon = songsOf .dungeon (creditsSongs.set 11
      { Song.new "Soldier" .dungeon with modified := true }.shortened) := by
    rw [← same]
    rfl
  have depth : 1 ≤ ({} : Soundtrack).config.limits.depth := by decide
  refine ⟨s, run, same, saved, dirty, Soundtrack.songs_reload (fun _ => Nat.le_refl _) depth
    loads_creditsImage run saved dirty ?_ ?_ (by decide) ?_ ?_ ?_ rfl⟩
  · rw [songs]
    decide +kernel
  · rw [songs]
    decide +kernel
  · rw [songs]
    decide +kernel
  · rw [songs]
    have uncalled : ∀ song ∈ songsOf .dungeon (creditsSongs.set 11
        { Song.new "Soldier" .dungeon with modified := true }.shortened), ∀ track ∈ song.tracks,
        ∀ e ∈ Track.beforeEnd track.events, (e.call?.map (·.2)).getD 0 = 0 := by decide +kernel
    intro song listed track member _ e heard target repeats called
    have none := uncalled song listed track member e heard
    rw [called] at none
    exact none
  · rw [songs]
    decide +kernel

end SnesMusic
