import SnesMusic.Proofs.Soundtrack.SavedState
import SnesMusic.Proofs.Soundtrack.SongSlots

/-!
# Saving what was restored

A soundtrack that was restored from a text has nothing to save but the songs that were marked as
modified when the text was made, and saves the banks of these. Main statement: after a load, a
restored text, a save and another load, a bank with such a song holds the songs of the text, and a
bank without one holds the songs of the image as before (`songs_reload_restored`). The text alone
does not bring its songs into the image (`restored_songs_lost`).
-/
namespace SnesMusic

/-! ### Tracks that run out of ticks -/

namespace Track

/-- The events of an encoded track without repeated calls as they are read back: none that begins
when the ticks are used up. -/
def heardFrom (budget ticks : Nat) (t : Timing) : List Event → List Event
  | [] => if budget ≤ ticks then [] else [.finish]
  | .finish :: _ => if budget ≤ ticks then [] else [.finish]
  | e :: rest =>
    if budget ≤ ticks then []
    else e.canonical t :: heardFrom budget (e.advance ticks) (e.after t) rest

/-- The track as it is read back from its place in a song, no further than to a number of ticks. -/
def heardWithin (budget : Nat) (track : Track) : Track :=
  if track.empty then .silent else .ofEvents (heardFrom budget 0 {} track.events)

theorem heardFrom_cons {e : Event} (h : e ≠ .finish) (budget ticks : Nat) (t : Timing)
    (rest : List Event) :
    heardFrom budget ticks t (e :: rest) =
      if budget ≤ ticks then []
      else e.canonical t :: heardFrom budget (e.advance ticks) (e.after t) rest := by
  cases e <;> first | rfl | exact absurd rfl h

variable {budget ticks : Nat} {t : Timing} {events : List Event}

/-- Where the ticks do not run out before the end, all events are heard. -/
theorem heardFrom_of_short (short : ticks + ticksBeforeEnd events < budget) :
    heardFrom budget ticks t events = canonicalFrom t events := by
  induction events generalizing ticks t with
  | nil =>
    have below : ¬budget ≤ ticks := by simpa [ticksBeforeEnd, beforeEnd] using short
    rw [heardFrom, canonicalFrom, if_neg below]
  | cons e rest ih =>
    by_cases last : e = .finish
    · subst last
      have below : ¬budget ≤ ticks := by simpa [ticksBeforeEnd, beforeEnd] using short
      rw [heardFrom, canonicalFrom, if_neg below]
    · rw [ticksBeforeEnd_cons last] at short
      have bound := e.advance_le ticks
      rw [heardFrom_cons last, canonicalFrom_cons last, if_neg (by omega), ih (by omega)]

theorem heardWithin_of_short {track : Track}
    (short : track.empty = false → ticksBeforeEnd track.events < budget) :
    track.heardWithin budget = track.canonical := by
  rw [heardWithin, canonical]
  cases filled : track.empty with
  | true => rfl
  | false => rw [heardFrom_of_short (by simpa using short filled)]

/-- Playing a track whose calls take no ticks goes on until the ticks are used up. -/
theorem playFrom_eq_heardFrom {call : UInt16 → UInt8 → Nat → Timing → Report Nat}
    (idle : ∀ e ∈ beforeEnd events, ∀ address repeats, e.call? = some (address, repeats) →
      ∀ left timing, (call address repeats left timing).outcome = .ok 0)
    (counted : ticks ≤ maxTicks) :
    ∃ total, playFrom call budget ticks t events =
      .ok (heardFrom budget ticks t events, total) := by
  induction events generalizing ticks t with
  | nil => exact ⟨ticks, rfl⟩
  | cons e rest ih =>
    by_cases last : e = .finish
    · subst last
      exact ⟨ticks, rfl⟩
    · simp only [beforeEnd_cons last, List.mem_cons, forall_eq_or_imp] at idle
      obtain ⟨here, later⟩ := idle
      rw [playFrom_cons last, heardFrom_cons last]
      by_cases late : budget ≤ ticks
      · exact ⟨ticks, by rw [if_pos late, if_pos late]⟩
      · rw [if_neg late, if_neg late]
        have same : addTicks ticks 0 = ticks := Nat.min_eq_left counted
        cases called : e.call? with
        | some target =>
          obtain ⟨address, repeats⟩ := target
          have still : e.advance ticks = ticks := by
            cases e <;> first | rfl | simp [Event.call?] at called
          obtain ⟨total, heard⟩ := ih (t := e.after t) later counted
          refine ⟨total, ?_⟩
          simp only [here address repeats called, same, still, heard]
          rfl
        | none =>
          have counted' : e.advance ticks ≤ maxTicks := by
            cases e <;> first | exact counted | exact Nat.min_le_right ..
          obtain ⟨total, heard⟩ := ih (t := e.after t) later counted'
          refine ⟨total, ?_⟩
          simp only [heard]
          rfl

end Track

namespace Uploads

/-- Encoded tracks without repeated calls are read as far as the ticks go. -/
theorem track_read_within {u : Uploads} {limits : Limits} {tracks : List Track} {base : UInt16}
    {data : List UInt8} (depth : 1 ≤ limits.depth)
    (uncalled : ∀ track ∈ tracks, track.empty = false → ∀ e ∈ Track.beforeEnd track.events,
      ∀ target repeats, e.call? = some (target, repeats) → repeats = 0) :
    ∀ track ∈ tracks, ∀ address, Song.TrackAt u base data track address →
      (u.track limits address).outcome = .ok (track.heardWithin limits.ticks) := by
  intro track member address there
  cases there with
  | silent empty => rw [track_zero, Track.heardWithin, if_pos empty]
  | stands nonzero filled encoded found low high =>
    obtain ⟨encodable, same⟩ := Track.bytes?_eq_ok encoded
    obtain ⟨levels, deep⟩ := Nat.exists_eq_add_of_le' depth
    have idle : ∀ e ∈ Track.beforeEnd track.events, ∀ target repeats,
        e.call? = some (target, repeats) → ∀ left timing,
          (Fragment.call u limits levels [address] target repeats left timing).outcome = .ok 0 :=
      fun e heard target repeats called left timing => Fragment.outcome_call_of_idle
        (.inl (uncalled track member filled e heard target repeats called)) left timing
    obtain ⟨total, played⟩ : ∃ total,
        Track.playFrom (Fragment.call u limits levels [address]) limits.ticks 0 {} track.events =
          .ok (Track.heardFrom limits.ticks 0 {} track.events, total) :=
      Track.playFrom_eq_heardFrom idle (Nat.zero_le _)
    rw [Uploads.track, Report.outcome_map, fragment, deep,
      Fragment.read_of_found nonzero List.not_mem_nil found, Token.lex, ← same,
      Track.lexFrom_encodeFrom encodable,
      Playback.run_tokensFrom (p := { timing := {} }) encodable rfl rfl, played]
    simp [Except.map, Track.heardWithin, filled]

end Uploads

/-- A song as it is read back, no track further than to a number of ticks. -/
def Song.heardWithin (budget : Nat) (s : Song) : List Segment := s.readAs (·.heardWithin budget)

theorem Song.heardWithin_of_short {s : Song} {budget : Nat} (segmented : s.segments ≠ [])
    (short : ∀ track ∈ s.tracks, track.empty = false →
      Track.ticksBeforeEnd track.events < budget) :
    s.heardWithin budget = s.canonical.segments := by
  rw [heardWithin, readAs_of_ne segmented]
  refine List.map_congr_left fun segment listed => ?_
  have each : ∀ track ∈ segment.tracks, track.heardWithin budget = track.canonical :=
    fun track member => Track.heardWithin_of_short
      (short track (List.mem_flatMap.mpr ⟨segment, listed, Vector.mem_toList_iff.mpr member⟩))
  rw [Segment.canonical, Vector.map_congr_left each]

/-! ### Banks that are saved, and banks that are not -/

namespace Soundtrack

variable {s fresh : Soundtrack} {image : Image} {bank : Bank}

/-- A bank that was saved is loaded again as it was saved, as far as its tracks are read. -/
theorem songsIn_reload_of_dirty (only : s.SongsOnly) (saved : (s.save image).outcome = .ok ())
    (dirty : bank ∈ s.dirtyBanks) (game : bank.isExpansion = false)
    (apart : bank = .dungeon → s.CreditsApart)
    (enough : bank.vanillaSlots ≤ (s.songsIn bank).length)
    (listed : (s.songsIn bank).length ≤ bank.maxSongs)
    (configured : fresh.config = s.config) (depth : 1 ≤ s.config.limits.depth)
    (uncalled : ∀ song ∈ s.songsIn bank, ∀ track ∈ song.tracks, track.empty = false →
      ∀ e ∈ Track.beforeEnd track.events, ∀ target repeats,
        e.call? = some (target, repeats) → repeats = 0) :
    ((fresh.load (s.save image).image).soundtrack.songsIn bank).map
        (fun song => (song.segments, song.loopPoint)) =
      (s.songsIn bank).map
        fun song => (song.heardWithin s.config.limits.ticks, song.loopPoint) := by
  obtain ⟨moved, body, w, -⟩ := wrote_save only saved dirty (.of_game game apart)
  rw [← configured] at w
  have count : moved.length = (s.songsIn bank).length := w.placed.length_eq
  have places : songAddresses (s.save image).image fresh.config bank = moved.map Song.address :=
    w.songAddresses_of_listed (by simp [game]) enough listed
  obtain ⟨slots, addresses, songs⟩ :=
    songsIn_load fresh (w.tabled (Nat.min_le_right ..)).isLoaded bank
  have length : slots.length = (s.songsIn bank).length := by
    rw [← count, ← List.length_map (f := SongSlot.address), addresses, places, List.length_map]
  rw [songs, List.map_map]
  refine List.ext_getElem (by simp only [List.length_map, length]) fun k inside inside' => ?_
  rw [List.length_map] at inside inside'
  have entered : (songAddresses (s.save image).image fresh.config bank)[k]? =
      some slots[k].address := by
    rw [← addresses, List.getElem?_map, List.getElem?_eq_getElem inside, Option.map_some]
  have value := song_of_wrote_as w game
    (Nat.lt_of_lt_of_le inside' listed) (List.getElem?_eq_getElem inside') entered fun _ _ =>
      Uploads.track_read_within (configured ▸ depth) (uncalled _ (List.getElem_mem inside'))
  rw [List.getElem_map, List.getElem_map, Function.comp_apply, value, configured]
  rfl

/-- Whether an image loads depends on the shared blocks alone. -/
theorem outcome_load_congr {start : Soundtrack} {saved : Image} (there : image.isLoaded = true)
    (again : saved.isLoaded = true)
    (same : Uploads.ofImage saved .common = Uploads.ofImage image .common) :
    (fresh.load saved).outcome = (start.load image).outcome := by
  rw [load, load, if_neg (by simp [again]), if_neg (by simp [there])]
  simp only [same]
  cases loadInstruments (Uploads.ofImage image .common) with
  | error e => rfl
  | ok instruments => cases loadSamples (Uploads.ofImage image .common) <;> rfl

/-- A bank that nothing was written to is loaded again as before. -/
theorem songsIn_reload_of_clean {start : Soundtrack} (there : image.isLoaded = true)
    (only : s.SongsOnly) (saved : (s.save image).outcome = .ok ())
    (game : bank.isExpansion = false) (configured : fresh.config = start.config)
    (kept : image.Untouched bank.uploadBank (s.SaveTakes image.headerOffset))
    (shared : image.Untouched .common (s.SaveTakes image.headerOffset)) :
    ((fresh.load (s.save image).image).soundtrack.songsIn bank).map
        (fun song => (song.segments, song.loopPoint)) =
      ((start.load image).soundtrack.songsIn bank).map
        fun song => (song.segments, song.loopPoint) := by
  have frame := takes_save only saved
  have uploads := uploads_of_frame frame kept shared
  have again : (s.save image).image.isLoaded = true := by
    rw [Image.isLoaded, frame.size]
    exact there
  obtain ⟨slots, addresses, songs⟩ := songsIn_load start there bank
  obtain ⟨slots', addresses', songs'⟩ := songsIn_load fresh again bank
  rw [songAddresses_of_uploads game uploads, ← addresses] at addresses'
  rw [songs, songs', List.map_map, List.map_map]
  refine map_eq_of_map_eq addresses' fun k slot' slot _ _ same => ?_
  simp only [Function.comp_apply]
  rw [uploads, configured, Uploads.songOrPlaceholder_congr _ _ _ same]

/-! ### Restored soundtracks -/

theorem songsOnly_restore (s : Soundtrack) (state : State) : (s.restore state).SongsOnly where
  instruments := rfl
  samples := by
    intro entry member
    obtain ⟨sample, -, rfl⟩ := List.mem_map.mp member
    rfl

theorem config_restore (s : Soundtrack) (state : State) : (s.restore state).config = s.config :=
  rfl

theorem dirtyBanks_restore (s : Soundtrack) {source : Soundtrack}
    (untouched : source.touched = fun _ => false) :
    (s.restore source.state).dirtyBanks = source.dirtyBanks :=
  dirtyBanks_congr rfl untouched.symm

theorem payloadSize_restore (s source : Soundtrack) (bank : Bank) :
    (s.restore source.state).payloadSize bank = source.payloadSize bank :=
  payloadSize_congr rfl bank

/-- What a text brings is saved where it is marked. -/
theorem mem_dirtyBanks_restore (s : Soundtrack) (state : State) :
    bank ∈ (s.restore state).dirtyBanks ↔
      ∃ song ∈ (s.restore state).songsIn bank, song.modified = true := by
  have all : bank ∈ Bank.all := by cases bank <;> decide
  rw [dirtyBanks, List.mem_filter]
  simp only [all, isDirty, restore, songsIn, Bool.false_or, List.any_eq_true, List.mem_filter,
    Bool.and_eq_true, beq_iff_eq, true_and]
  refine exists_congr fun song => ?_
  constructor
  · rintro ⟨listed, marked, home⟩
    exact ⟨⟨listed, home⟩, marked⟩
  · rintro ⟨⟨listed, home⟩, marked⟩
    exact ⟨listed, marked, home⟩

/-- After a load, a restored text, a save and another load, a bank of the game with songs that are
marked as modified in the text holds the songs of the text, if these fill the slots of the game's
own songs and no more than are looked at, repeat no calls, and the credits were not saved over the
dungeon: with their loops and in canonical form, as far as the ticks go. A bank without such songs
holds the songs of the image as before, if nothing was written to its blocks and the shared ones.
The image loads again where nothing was written to the shared blocks. -/
theorem songs_reload_restored {start source restored fresh : Soundtrack} {image : Image}
    (loaded : (start.load image).outcome = .ok ()) (counted : source.state.Counted)
    (restoring : (start.load image).soundtrack.loadJson source.toJson = .ok restored)
    (saved : (restored.save image).outcome = .ok ())
    (configured : fresh.config = start.config) :
    let again := fresh.load (restored.save image).image
    let limits := start.config.limits
    let takes := restored.SaveTakes image.headerOffset
    (image.Untouched .common takes → again.outcome = .ok ()) ∧
      ∀ bank, bank.isExpansion = false →
        ((∃ song ∈ source.songsIn bank, song.modified = true) → 1 ≤ limits.depth →
          bank.vanillaSlots ≤ (source.songsIn bank).length →
          (source.songsIn bank).length ≤ bank.maxSongs →
          (∀ song ∈ source.songsIn bank, ∀ track ∈ song.tracks, track.empty = false →
            ∀ e ∈ Track.beforeEnd track.events, ∀ target repeats,
              e.call? = some (target, repeats) → repeats = 0) →
          (bank = .dungeon → restored.CreditsApart) →
          (again.soundtrack.songsIn bank).map (fun song => (song.segments, song.loopPoint)) =
              (source.songsIn bank).map
                (fun song => (song.heardWithin limits.ticks, song.loopPoint)) ∧
            ∀ song ∈ source.songsIn bank, song.segments ≠ [] →
              (∀ track ∈ song.tracks, track.empty = false →
                Track.ticksBeforeEnd track.events < limits.ticks) →
              song.heardWithin limits.ticks = song.canonical.segments) ∧
        (image.Untouched bank.uploadBank takes → image.Untouched .common takes →
          (again.soundtrack.songsIn bank).map (fun song => (song.segments, song.loopPoint)) =
            ((start.load image).soundtrack.songsIn bank).map
              fun song => (song.segments, song.loopPoint)) := by
  intro again limits takes
  rw [loadJson_eq_restore counted, Except.ok.injEq] at restoring
  subst restoring
  have only := songsOnly_restore (start.load image).soundtrack source.state
  have config : ((start.load image).soundtrack.restore source.state).config = start.config :=
    config_load start image
  obtain ⟨there, -⟩ := load_ok loaded
  refine ⟨fun shared => ?_, fun bank game => ⟨?_, ?_⟩⟩
  · have frame := takes_save only saved
    have again : ((start.load image).soundtrack.restore source.state |>.save image).image.isLoaded =
        true := by
      rw [Image.isLoaded, frame.size]
      exact there
    exact (outcome_load_congr there again (uploads_of_frame frame shared shared)).trans loaded
  · intro marked depth enough listed uncalled apart
    refine ⟨?_, fun song _ segmented short => Song.heardWithin_of_short segmented short⟩
    have dirty := (mem_dirtyBanks_restore (start.load image).soundtrack source.state).mpr marked
    have reloaded := songsIn_reload_of_dirty only saved dirty game apart enough listed
      (configured.trans config.symm) (config ▸ depth) uncalled
    rw [config] at reloaded
    exact reloaded
  · exact fun kept shared => songsIn_reload_of_clean there only saved game configured kept shared

end Soundtrack

/-! ### An example -/

/-- The game's own songs, all silent and as if they had been loaded, and some more. -/
def silentMusic (more : List Song) : Soundtrack :=
  { songs := (vanillaSongs.map fun song => Song.new song.1 song.2) ++ more }

/-- The soldiers' song for the credits, as one to be saved. -/
def curtainCall : Song :=
  { soldierSong with name := "Curtain Call", bank := .credits, modified := true }

/-- The soundtrack of the image with the music of another in its place. -/
def restoredSoldiers (source : Soundtrack) : Soundtrack :=
  (roomy.load soldierImage).soundtrack.restore source.state

theorem counted_silentMusic {more : List Song}
    (short : ∀ song ∈ more, ∀ point ∈ song.loopPoint, point < countLimit) :
    (silentMusic more).state.Counted where
  loops := by
    intro song member point loops
    rcases List.mem_append.mp member with own | added
    · obtain ⟨name, -, rfl⟩ := List.mem_map.mp own
      cases loops
    · exact short song added point loops
  samples := by simp [Soundtrack.state, Soundtrack.samples, silentMusic]
  slots := by simp [Soundtrack.state, silentMusic, countLimit, UInt64.size]

theorem restores_silentMusic {more : List Song}
    (short : ∀ song ∈ more, ∀ point ∈ song.loopPoint, point < countLimit) :
    (roomy.load soldierImage).soundtrack.loadJson (silentMusic more).toJson =
      .ok (restoredSoldiers (silentMusic more)) :=
  Soundtrack.loadJson_eq_restore (counted_silentMusic short) _

theorem config_restoredSoldiers (source : Soundtrack) :
    (restoredSoldiers source).config = roomy.config := by
  rw [restoredSoldiers, Soundtrack.config_restore, Soundtrack.config_load]

theorem dirtyBanks_curtainCall :
    (restoredSoldiers (silentMusic [curtainCall])).dirtyBanks = [.credits] := by
  rw [restoredSoldiers, Soundtrack.dirtyBanks_restore _ rfl]
  decide +kernel

theorem payloadSize_curtainCall :
    (restoredSoldiers (silentMusic [curtainCall])).payloadSize .credits = .ok 95 := by
  rw [restoredSoldiers, Soundtrack.payloadSize_restore]
  exact Report.ok_of_toOption (by decide +kernel)

theorem saves_curtainCall :
    ((restoredSoldiers (silentMusic [curtainCall])).save soldierImage).outcome = .ok () := by
  have looped : ∀ song ∈ (silentMusic [curtainCall]).songs, ∀ segment ∈ song.loopPoint,
      segment < song.segments.length := by decide +kernel
  exact saves_alone_soldierImage (Soundtrack.songsOnly_restore _ _) rfl
    (config_restoredSoldiers _) dirtyBanks_curtainCall payloadSize_curtainCall (by decide) looped

/-- The credits alone were saved, in front of the dungeon and behind the shared block. -/
theorem untouched_curtainCall :
    soldierImage.Untouched .dungeon ((restoredSoldiers (silentMusic [curtainCall])).SaveTakes
        soldierImage.headerOffset) ∧
      soldierImage.Untouched .common ((restoredSoldiers (silentMusic [curtainCall])).SaveTakes
        soldierImage.headerOffset) := by
  constructor
  · rintro i low high ⟨bank, dirty, size, sized, taken⟩
    rw [dirtyBanks_curtainCall, List.mem_singleton] at dirty
    subst dirty
    rw [payloadSize_curtainCall, Except.ok.injEq] at sized
    subst sized
    have offset : UploadBank.dungeon.offset = 0xD8000 := rfl
    have own : Bank.credits.offset = 0xD5380 := rfl
    rw [soldierImage, Image.locate_ofBlocks, offset] at low
    rw [soldierImage, Image.headerOffset_ofBlocks] at taken
    rcases taken with ⟨-, stop⟩ | ⟨place, known, byte⟩
    · rw [own, Block.headerSize] at stop
      omega
    · obtain ⟨_, _, _⟩ := Bank.pointerBytes_lt known
      omega
  · refine Image.untouched_ofBlocks distinct_soldierImage fits_soldierImage
      (List.mem_cons_self ..) rfl ?_
    rintro i ⟨bank, -, size, -, taken⟩
    exact ⟨bank, size, taken⟩

/-- The song that was marked in the text is loaded from the credits; the dungeon keeps the song of
the image, though it is silent in the text. -/
theorem curtain_call_reloads :
    (roomy.load soldierImage).outcome = .ok () ∧ (silentMusic [curtainCall]).state.Counted ∧
      (roomy.load soldierImage).soundtrack.loadJson (silentMusic [curtainCall]).toJson =
        .ok (restoredSoldiers (silentMusic [curtainCall])) ∧
      ((restoredSoldiers (silentMusic [curtainCall])).save soldierImage).outcome = .ok () ∧
      let again :=
        roomy.load ((restoredSoldiers (silentMusic [curtainCall])).save soldierImage).image
      again.outcome = .ok () ∧
        (again.soundtrack.songsIn .credits).map (fun song => (song.segments, song.loopPoint)) =
          List.replicate 3 ([Segment.silent], none) ++ [(soldierSong.segments, some 0)] ∧
        (soldierSong.segments, some 0) ∈
          (again.soundtrack.songsIn .dungeon).map fun song => (song.segments, song.loopPoint) := by
  have short : ∀ song ∈ [curtainCall], ∀ point ∈ song.loopPoint, point < countLimit := by decide
  have counted := counted_silentMusic short
  have restoring := restores_silentMusic short
  have uncalled : ∀ song ∈ (silentMusic [curtainCall]).songsIn .credits, ∀ track ∈ song.tracks,
      ∀ e ∈ Track.beforeEnd track.events, e.call? = none := by decide +kernel
  obtain ⟨dungeon, shared⟩ := untouched_curtainCall
  obtain ⟨outcome, banks⟩ := Soundtrack.songs_reload_restored loads_soldierImage counted restoring
    saves_curtainCall (show roomy.config = roomy.config from rfl)
  obtain ⟨saved, -⟩ := banks .credits rfl
  obtain ⟨-, kept⟩ := banks .dungeon rfl
  obtain ⟨reloaded, -⟩ := saved ⟨curtainCall, by decide +kernel, rfl⟩ (by decide)
    (by decide +kernel) (by decide +kernel)
    (fun song listed track member _ e heard target repeats called => by
      simp [uncalled song listed track member e heard] at called) (by simp)
  refine ⟨loads_soldierImage, counted, restoring, saves_curtainCall, outcome shared, ?_, ?_⟩
  · rw [reloaded]
    decide +kernel
  · rw [kept dungeon shared, Soundtrack.songsIn, songs_soldierImage]
    decide +kernel

theorem saves_silentMusic :
    ((restoredSoldiers (silentMusic [])).save soldierImage).outcome = .ok () ∧
      ((restoredSoldiers (silentMusic [])).save soldierImage).image = soldierImage := by
  have only : (restoredSoldiers (silentMusic [])).SongsOnly := Soundtrack.songsOnly_restore _ _
  have none : (restoredSoldiers (silentMusic [])).dirtyBanks = [] := by
    rw [restoredSoldiers, Soundtrack.dirtyBanks_restore _ rfl]
    decide +kernel
  exact Soundtrack.save_of_clean only none rfl isLoaded_soldierImage

/-- A text does not bring songs into the image that are not marked in it: a save writes nothing, and
the image still holds its own songs. -/
theorem restored_songs_lost :
    ¬∀ (start source restored fresh : Soundtrack) (image : Image),
      (start.load image).outcome = .ok () → source.state.Counted →
      (∀ song ∈ source.songs, song.segments ≠ []) →
      (∀ song ∈ source.songs, ∀ track ∈ song.tracks, ∀ e ∈ track.events, e.call? = none) →
      (∀ song ∈ source.songs, ∀ track ∈ song.tracks,
        Track.ticksBeforeEnd track.events < start.config.limits.ticks) →
      (∀ bank, bank.vanillaSlots ≤ (source.songsIn bank).length ∧
        (source.songsIn bank).length ≤ bank.maxSongs ∧ ∃ size,
          source.payloadSize bank = .ok size ∧ size ≤ min (start.config.limit bank) bank.room) →
      (start.load image).soundtrack.loadJson source.toJson = .ok restored →
      (restored.save image).outcome = .ok () → fresh.config = start.config →
      (fresh.load (restored.save image).image).outcome = .ok () →
      ∀ bank, bank.isExpansion = false →
        ((fresh.load (restored.save image).image).soundtrack.songsIn bank).map
            (fun song => (song.segments, song.loopPoint)) =
          (source.songsIn bank).map fun song => (song.canonical.segments, song.loopPoint) := by
  intro kept
  obtain ⟨saved, same⟩ := saves_silentMusic
  have segmented : ∀ song ∈ (silentMusic []).songs, song.segments ≠ [] := by decide +kernel
  have uncalled : ∀ song ∈ (silentMusic []).songs, ∀ track ∈ song.tracks, ∀ e ∈ track.events,
      e.call? = none := by decide +kernel
  have short : ∀ song ∈ (silentMusic []).songs, ∀ track ∈ song.tracks,
      Track.ticksBeforeEnd track.events < roomy.config.limits.ticks := by decide +kernel
  have fits : ∀ bank, bank.vanillaSlots ≤ ((silentMusic []).songsIn bank).length ∧
      ((silentMusic []).songsIn bank).length ≤ bank.maxSongs ∧ ∃ size,
        (silentMusic []).payloadSize bank = .ok size ∧
          size ≤ min (roomy.config.limit bank) bank.room := by
    intro bank
    refine ⟨by cases bank <;> decide +kernel, by cases bank <;> decide +kernel, ?_⟩
    cases bank with
    | overworld => exact ⟨244, Report.ok_of_toOption (by decide +kernel), by decide⟩
    | dungeon => exact ⟨442, Report.ok_of_toOption (by decide +kernel), by decide⟩
    | credits => exact ⟨68, Report.ok_of_toOption (by decide +kernel), by decide⟩
    | overworldExpanded => exact ⟨2, Report.ok_of_toOption (by decide +kernel), by decide⟩
    | auxiliary => exact ⟨2, Report.ok_of_toOption (by decide +kernel), by decide⟩
  have lost := kept roomy (silentMusic []) _ roomy soldierImage loads_soldierImage
    (counted_silentMusic (by simp)) segmented uncalled short fits
    (restores_silentMusic (by simp)) saved rfl (by rw [same]; exact loads_soldierImage) .dungeon rfl
  rw [same, Soundtrack.songsIn, songs_soldierImage] at lost
  revert lost
  decide +kernel

end SnesMusic
