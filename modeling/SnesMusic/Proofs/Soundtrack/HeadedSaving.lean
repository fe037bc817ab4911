import SnesMusic.Proofs.Soundtrack.FailedSave
import SnesMusic.Proofs.Soundtrack.HeadedLoading
import SnesMusic.Soundtrack.Edit
import SnesMusic.Soundtrack.State

/-!
# Saving behind a copier header

Edits do not look at the places of samples, and everything that saving writes goes to a place of the
bare image or to one that was found in the image. Main statements: saving behind a copier header
writes what it writes to the bare image, and fails where it does (`save_headed`), so that loading,
editing and saving never shows whether there is a copier header (`header_invisible`).
-/
namespace SnesMusic

open LittleEndian

/-! ### Errors without a place -/

/-- A failure, if there is one, does not name a range of the image. -/
def Unplaced {α : Type} (result : Except MusicError α) : Prop :=
  result.mapError MusicError.headed = result

theorem unplaced_bind {α β : Type} {first : Except MusicError α} {next : α → Except MusicError β}
    (before : Unplaced first) (behind : ∀ a, Unplaced (next a)) : Unplaced (first >>= next) := by
  cases first with
  | error e =>
    have same : e.headed = e := Except.error.inj before
    exact congrArg Except.error same
  | ok a => exact behind a

theorem unplaced_forM {α : Type} {f : α → Except MusicError Unit} (each : ∀ x, Unplaced (f x))
    (xs : List α) : Unplaced (xs.forM f) := by
  induction xs with
  | nil => rfl
  | cons x rest ih => exact unplaced_bind (each x) fun _ => ih

theorem Track.unplaced_bytes? (track : Track) : Unplaced track.bytes? := by
  unfold bytes?
  dsimp only
  split <;> rfl

theorem Track.unplaced_requiredSpace (track : Track) : Unplaced track.requiredSpace := by
  unfold requiredSpace
  split
  · rfl
  · dsimp only
    split <;> rfl

namespace Song

theorem unplaced_layTracks (position : Nat) (tracks : List Track) :
    Unplaced (layTracks position tracks) := by
  induction tracks generalizing position with
  | nil => rfl
  | cons track rest ih =>
    unfold layTracks
    split
    · exact unplaced_bind (ih position) fun _ => rfl
    · exact unplaced_bind track.unplaced_bytes? fun bytes => unplaced_bind (ih _) fun _ => rfl

theorem unplaced_encode (song : Song) (base : UInt16) : Unplaced (song.encode base) := by
  unfold encode
  split
  · rfl
  · exact unplaced_bind (unplaced_layTracks _ _) fun _ => rfl

theorem unplaced_requiredSpace (song : Song) : Unplaced song.requiredSpace := by
  have tracks : ∀ tracks, Unplaced (tracksSpace tracks) := by
    intro tracks
    induction tracks with
    | nil => rfl
    | cons track rest ih =>
      exact unplaced_bind track.unplaced_requiredSpace fun _ => unplaced_bind ih fun _ => rfl
  exact unplaced_bind (tracks _) fun _ => rfl

end Song

theorem Placement.unplaced_ofSongs (bank : Bank) (address : Nat) (songs : List Song) :
    Unplaced (ofSongs bank address songs).outcome := by
  induction songs generalizing address with
  | nil => rfl
  | cons song rest ih =>
    by_cases here : song.bank = bank
    · rw [ofSongs_here here]
      split
      · rfl
      · have encoded := song.unplaced_encode (UInt16.ofNat address)
        cases outcome : song.encode (UInt16.ofNat address) with
        | error e =>
          rw [outcome] at encoded
          exact congrArg Except.error (Except.error.inj encoded)
        | ok encoding =>
          dsimp only
          split
          · rfl
          · exact ih _
    · rw [ofSongs_elsewhere here]
      exact ih address

namespace Soundtrack

theorem unplaced_check (s : Soundtrack) : Unplaced s.check := by
  have songs : ∀ songs, Unplaced (songsSpace songs) := by
    intro songs
    induction songs with
    | nil => rfl
    | cons song rest ih =>
      exact unplaced_bind song.unplaced_requiredSpace fun _ => unplaced_bind ih fun _ => rfl
  have bank : ∀ bank, Unplaced (s.checkBank bank) := by
    intro bank
    refine unplaced_bind (unplaced_bind (songs _) fun _ => rfl) fun needed => ?_
    dsimp only
    split <;> rfl
  have sample : ∀ entry, Unplaced (checkSample entry) := by
    intro entry
    unfold checkSample
    split
    · split <;> rfl
    · rfl
  exact unplaced_bind (unplaced_forM bank _) fun _ => unplaced_forM sample _

end Soundtrack

/-! ### Editing -/

/-- A change to a soundtrack. Songs, instruments and samples may be changed in any way. -/
inductive Edit where
  | createSong (name : String) (bank : Bank)
  | addSong (song : Song)
  | duplicateSong (index : Nat)
  | deleteSong (index : Nat)
  | changeSong (index : Nat) (change : Song → Song)
  | placeSong (song : Song) (replace : Bool)
  | createInstrument (name : String)
  | changeInstrument (index : Nat) (change : Instrument → Instrument)
  | changeSample (index : Nat) (change : Sample → Sample)
  | importSample (name : String) (file : List UInt8)
  | replaceSample (index : Nat) (file : List UInt8)
  | restore (text : String)

/-- The soundtrack after an edit, if it is not refused. -/
def Edit.apply (s : Soundtrack) : Edit → Except MusicError Soundtrack
  | .createSong name bank => .ok (s.createSong name bank)
  | .addSong song => .ok (s.addSong song)
  | .duplicateSong index => s.duplicateSong index
  | .deleteSong index => (s.deleteSong index).map (·.2)
  | .changeSong index change => s.updateSong index change
  | .placeSong song replace => (s.placeSong song replace).map (·.soundtrack)
  | .createInstrument name => .ok (s.createInstrument name)
  | .changeInstrument index change => s.updateInstrument index change
  | .changeSample index change => s.updateSample index change
  | .importSample name file => (s.importSample name file).outcome
  | .replaceSample index file => (s.replaceSample index file).outcome
  | .restore text => s.loadJson text

namespace Soundtrack

/-- The soundtrack after edits in order; one that is refused changes nothing. -/
def edited (s : Soundtrack) (edits : List Edit) : Soundtrack :=
  edits.foldl (fun s edit => (edit.apply s).toOption.getD s) s

variable (s : Soundtrack)

theorem updateSong_headed (index : Nat) (change : Song → Song) :
    s.headed.updateSong index change = (s.updateSong index change).map headed := by
  have same : s.headed.song? index = s.song? index := rfl
  rw [updateSong, updateSong, same]
  cases s.song? index <;> rfl

theorem placeSong_headed (song : Song) (replace : Bool) :
    (s.headed.placeSong song replace).map (·.soundtrack) =
      ((s.placeSong song replace).map (·.soundtrack)).map headed := by
  have same : s.headed.indexOfName? song.name = s.indexOfName? song.name := rfl
  rw [placeSong, placeSong, same]
  cases if replace then s.indexOfName? song.name else none with
  | none => rfl
  | some index =>
    simp only [replaceSong, updateSong_headed]
    cases s.updateSong index _ <;> rfl

theorem sampleEntry_headed (index : Nat) :
    s.headed.entry? index = (s.entry? index).map SampleEntry.headed := by
  simp only [headed, entry?, List.getElem?_map]
  cases s.entries[index]? <;> rfl

theorem updateSample_headed (index : Nat) (change : Sample → Sample) :
    s.headed.updateSample index change = (s.updateSample index change).map headed := by
  rw [updateSample, updateSample, sampleEntry_headed]
  cases s.entry? index with
  | error e => rfl
  | ok entry =>
    apply congrArg Except.ok
    simp only [headed, List.map_set]
    rfl

theorem importSample_headed (name : String) (file : List UInt8) :
    (s.headed.importSample name file).outcome =
      (s.importSample name file).outcome.map headed := by
  simp only [importSample, Report.outcome_bind, Report.outcome_ofExcept]
  cases Wave.ofFile file with
  | error e => rfl
  | ok wave =>
    apply congrArg Except.ok
    simp only [headed, List.map_append]
    rfl

theorem replaceSample_headed (index : Nat) (file : List UInt8) :
    (s.headed.replaceSample index file).outcome =
      (s.replaceSample index file).outcome.map headed := by
  have same : s.headed.sample? index = s.sample? index := by
    rw [sample?, sample?, sampleEntry_headed]
    cases s.entry? index <;> rfl
  simp only [replaceSample, Report.outcome_bind, Report.outcome_ofExcept, same]
  cases Wave.ofFile file with
  | error e => rfl
  | ok wave =>
    cases s.sample? index with
    | error e => rfl
    | ok old => exact s.updateSample_headed index fun sample => Sample.ofWave sample.name wave

theorem loadJson_headed (text : String) :
    s.headed.loadJson text = (s.loadJson text).map headed := by
  rw [loadJson, loadJson]
  cases Json.Value.ofText? text >>= State.ofValue? with
  | none => rfl
  | some state =>
    apply congrArg Except.ok
    simp only [restore, headed, List.map_map]
    rfl

end Soundtrack

/-- Edits do not look at the places of samples. -/
theorem Edit.apply_headed (s : Soundtrack) (edit : Edit) :
    edit.apply s.headed = (edit.apply s).map Soundtrack.headed := by
  have song : ∀ index, s.headed.song? index = s.song? index := fun _ => rfl
  have instrument : ∀ index, s.headed.instrument? index = s.instrument? index := fun _ => rfl
  cases edit with
  | createSong name bank => rfl
  | addSong song => rfl
  | duplicateSong index =>
    rw [apply, apply, Soundtrack.duplicateSong, Soundtrack.duplicateSong, song]
    cases s.song? index <;> rfl
  | deleteSong index =>
    rw [apply, apply, Soundtrack.deleteSong, Soundtrack.deleteSong, song]
    cases s.song? index with
    | error e => rfl
    | ok old => cases isVanilla index <;> rfl
  | changeSong index change => exact s.updateSong_headed index change
  | placeSong song replace => exact s.placeSong_headed song replace
  | createInstrument name => rfl
  | changeInstrument index change =>
    rw [apply, apply, Soundtrack.updateInstrument, Soundtrack.updateInstrument, instrument]
    cases s.instrument? index <;> rfl
  | changeSample index change => exact s.updateSample_headed index change
  | importSample name file => exact s.importSample_headed name file
  | replaceSample index file => exact s.replaceSample_headed index file
  | restore text => exact s.loadJson_headed text

theorem Soundtrack.edited_headed (s : Soundtrack) (edits : List Edit) :
    s.headed.edited edits = (s.edited edits).headed := by
  induction edits generalizing s with
  | nil => rfl
  | cons edit rest ih =>
    have step : (edit.apply s.headed).toOption.getD s.headed =
        ((edit.apply s).toOption.getD s).headed := by
      rw [edit.apply_headed]
      cases edit.apply s <;> rfl
    rw [edited, List.foldl_cons, step, ← edited, ih]
    rfl

/-! ### Saving -/

namespace Saving

variable (header : Vector UInt8 Image.headerSize)

/-- A save that goes on behind a copier header. -/
def headed (s : Saving) : Saving :=
  { soundtrack := s.soundtrack.headed
    image := s.image.headed header
    notices := s.notices
    outcome := s.outcome.mapError MusicError.headed }

variable {s : Saving}

theorem andThen_headed (step : Saving → Saving) {step' : Saving → Saving}
    (alike : step' (s.headed header) = (step s).headed header) :
    (s.headed header).andThen step' = (s.andThen step).headed header := by
  unfold andThen
  cases outcome : s.outcome with
  | error e =>
    have failed : (s.headed header).outcome = .error e.headed := by rw [headed, outcome]; rfl
    simp only [failed]
  | ok u =>
    have passed : (s.headed header).outcome = .ok () := by rw [headed, outcome]; rfl
    simp only [passed]
    exact alike

/-- A run of steps, each of which is the same behind a copier header and keeps the size of the
image. -/
theorem each_headed {α β : Type} {f : α → β} {step : α → Saving → Saving}
    {step' : β → Saving → Saving}
    (alike : ∀ x s, s.image.Bare → step' (f x) (s.headed header) = (step x s).headed header)
    (size : ∀ x s, (step x s).image.size = s.image.size) (bare : s.image.Bare) (xs : List α) :
    (s.headed header).each (xs.map f) step' = (s.each xs step).headed header := by
  induction xs generalizing s with
  | nil => rfl
  | cons x rest ih =>
    rw [List.map_cons, each_cons, each_cons, andThen_headed header (step x) (alike x s bare)]
    exact ih (bare.of_size (size_andThen (size x s)))

theorem write_headed (bare : s.image.Bare) (offset : Nat) (bytes : List UInt8) :
    (s.headed header).write (offset + Image.headerSize) bytes =
      (s.write offset bytes).headed header := by
  have written := Image.tryWrite_headed header bare.filled offset bytes
  simp only [write, headed, written, Image.Written.headed]

theorem writePointer_headed (bare : s.image.Bare) (bank : Bank) :
    (s.headed header).writePointer bank = (s.writePointer bank).headed header := by
  unfold writePointer
  cases bank.pointerBytes with
  | none => rfl
  | some place =>
    have written := Image.writePointer_headed header bare place bank.offset
    simp only [headed, written, Image.Written.headed]

theorem saveSongs_headed (bare : s.image.Bare) (bank : Bank) :
    saveSongs bank (s.headed header) = (saveSongs bank s).headed header := by
  have same : placement bank (s.headed header) = placement bank s := rfl
  cases outcome : (placement bank s).outcome with
  | error e =>
    have unnamed : Unplaced (placement bank s).outcome := Placement.unplaced_ofSongs _ _ _
    rw [outcome] at unnamed
    rw [saveSongs_eq_of_refused outcome, saveSongs_eq_of_refused (same ▸ outcome)]
    exact congrArg (fun outcome => ({ s.headed header with soundtrack := _, outcome } : Saving))
      unnamed.symm
  | ok u =>
    have place : (s.headed header).image.locate bank.offset =
        s.image.locate bank.offset + Image.headerSize := by
      rw [bare.locate]
      exact bare.locate_headed header bank.offset
    have written := fun bytes => write_headed header (s := addressed bank s) bare
      (s.image.locate bank.offset) bytes
    have pointed := fun bytes => writePointer_headed header
      (bare.of_size (size_write (addressed bank s) (s.image.locate bank.offset) bytes)) bank
    rw [saveSongs_eq_of_placed outcome, saveSongs_eq_of_placed (same ▸ outcome), place,
      show addressed bank (s.headed header) = (addressed bank s).headed header from rfl, written,
      andThen_headed header (·.writePointer bank) (pointed _)]
    exact andThen_headed header _ rfl

theorem saveInstruments_headed (bare : s.image.Bare) :
    (s.headed header).saveInstruments = s.saveInstruments.headed header := by
  have uploads : Uploads.ofImage (s.headed header).image .common =
      (Uploads.ofImage s.image .common).headed := Uploads.ofImage_headed header bare .common
  simp only [saveInstruments, uploads, Uploads.offset?_headed]
  cases (Uploads.ofImage s.image .common).offset? instrumentTableAddress with
  | none => rfl
  | some offset =>
    have all : (s.headed header).soundtrack.instruments = s.soundtrack.instruments := rfl
    simp only [Option.map_some, all]
    split
    · exact write_headed header bare offset _
    · exact write_headed header (s := s.tell _) bare offset _

theorem saveSample_headed (entry : SampleEntry × Nat) (bare : s.image.Bare) :
    saveSample (entry.map SampleEntry.headed id) (s.headed header) =
      (saveSample entry s).headed header := by
  obtain ⟨⟨sample, slot, modified⟩, index⟩ := entry
  cases modified with
  | false => rfl
  | true =>
    cases slot with
    | none => rfl
    | some slot =>
      have first := write_headed header bare slot.offset sample.encoded
      have second := write_headed header (bare.of_size (size_write s slot.offset sample.encoded))
        (slot.directory + 2) (bytes (loopAddress slot sample))
      have directory : slot.headed.directory + 2 = slot.directory + 2 + Image.headerSize :=
        Nat.add_right_comm ..
      show ((s.headed header).write (slot.offset + Image.headerSize) sample.encoded).andThen
        (·.write (slot.headed.directory + 2) (bytes (loopAddress slot sample))) = _
      rw [first, directory]
      exact andThen_headed header _ second

end Saving

namespace Soundtrack

variable (header : Vector UInt8 Image.headerSize) {image : Image}

theorem check_headed (s : Soundtrack) : s.headed.check = s.check := by
  have entries : ∀ entries : List SampleEntry,
      (entries.map SampleEntry.headed).forM checkSample = entries.forM checkSample := by
    intro entries
    induction entries with
    | nil => rfl
    | cons entry rest ih =>
      have same : checkSample entry.headed = checkSample entry := by
        obtain ⟨sample, slot, modified⟩ := entry
        cases slot <;> cases modified <;> rfl
      rw [List.map_cons, List.forM, List.forM, same, ih]
  have banks : s.headed.dirtyBanks.forM s.headed.checkBank = s.dirtyBanks.forM s.checkBank := rfl
  rw [check, check, banks, headed, entries]

theorem writeAll_headed (bare : image.Bare) (s : Soundtrack) :
    s.headed.writeAll (image.headed header) = (s.writeAll image).headed header := by
  have banks : s.headed.saveBanks (image.headed header) = (s.saveBanks image).headed header := by
    have run := Saving.each_headed header (f := id) (s := { soundtrack := s, image })
      (fun bank _ bare => Saving.saveSongs_headed header bare bank) Saving.size_saveSongs bare
      s.dirtyBanks
    rwa [List.map_id] at run
  let table (saving : Saving) : Saving :=
    if s.instrumentsModified then saving.saveInstruments else saving
  have instruments : table ((s.saveBanks image).headed header) =
      (table (s.saveBanks image)).headed header := by
    dsimp only [table]
    split
    · exact Saving.saveInstruments_headed header (bare.of_size (size_saveBanks s image))
    · rfl
  have size : ((s.saveBanks image).andThen table).image.size = image.size := by
    refine (Saving.size_andThen ?_).trans (size_saveBanks s image)
    dsimp only [table]
    split
    · exact Saving.size_saveInstruments _
    · rfl
  have entries : s.headed.entries.zipIdx = s.entries.zipIdx.map (Prod.map SampleEntry.headed id) :=
    List.zipIdx_map ..
  have samples := Saving.each_headed header
    (fun entry _ bare => Saving.saveSample_headed header entry bare) Saving.size_saveSample
    (bare.of_size size) s.entries.zipIdx
  show ((s.headed.saveBanks (image.headed header)).andThen table).andThen
    (·.each s.headed.entries.zipIdx Saving.saveSample) = _
  rw [banks, Saving.andThen_headed header table instruments, entries]
  exact Saving.andThen_headed header _ samples

/-- Saving behind a copier header comes to the same as saving to the bare image: the same bytes
behind the header, the same soundtrack but for the places of the samples, and a failure that differs
only in the range it names. -/
theorem save_headed (bare : image.Bare) (s : Soundtrack) :
    s.headed.save (image.headed header) = (s.save image).headed header := by
  have there := image.isLoaded_headed header
  have filled := bare.isLoaded
  have loaded' : s.headed.loaded = s.loaded := rfl
  have checked' := s.check_headed
  cases loaded : s.loaded with
  | false =>
    rw [save, save, loaded', loaded]
    rfl
  | true =>
    rw [loaded] at loaded'
    cases checked : s.check with
    | error e =>
      have unplaced := s.unplaced_check
      rw [checked] at unplaced checked'
      rw [save, save, loaded', loaded, there, filled, checked', checked]
      exact congrArg (fun outcome : Except MusicError Unit =>
        ({ soundtrack := s.headed, image := image.headed header, outcome } : Saving)) unplaced.symm
    | ok u =>
      rw [checked] at checked'
      rw [save_eq_of_check loaded' there checked', save_eq_of_check loaded filled checked,
        writeAll_headed header bare]
      apply Saving.andThen_headed header
      simp only [Saving.headed, markSaved, headed, List.map_map]
      rfl

end Soundtrack

/-! ### Sessions -/

open Soundtrack

variable (header : Vector UInt8 Image.headerSize) {image : Image}

theorem isOk_mapError {ε ε' α : Type} (f : ε → ε') (result : Except ε α) (a : α) :
    result.mapError f = .ok a ↔ result = .ok a := by
  cases result <;> simp

/-- Whether an image has a copier header does not show: the image can be loaded or not, and has the
same songs, instruments and samples, the same song tables and the same patch either way. After any
edits, both can be saved or neither, and what is behind the header is the image without one. -/
theorem header_invisible (bare : image.Bare) (s : Soundtrack) (edits : List Edit) :
    let plain := s.load image
    let behind := s.load (image.headed header)
    let saved := (plain.soundtrack.edited edits).save image
    let savedBehind := (behind.soundtrack.edited edits).save (image.headed header)
    (behind.outcome = .ok () ↔ plain.outcome = .ok ()) ∧
      behind.soundtrack.songs = plain.soundtrack.songs ∧
      behind.soundtrack.instruments = plain.soundtrack.instruments ∧
      behind.soundtrack.samples = plain.soundtrack.samples ∧
      behind.soundtrack.tableSlots = plain.soundtrack.tableSlots ∧
      behind.soundtrack.hook = plain.soundtrack.hook ∧
      (savedBehind.outcome = .ok () ↔ saved.outcome = .ok ()) ∧
      savedBehind.image = saved.image.headed header := by
  intro plain behind saved savedBehind
  have loads : behind = plain.headed := s.load_headed header bare
  have saves : savedBehind = saved.headed header := by
    have edited : behind.soundtrack.edited edits = (plain.soundtrack.edited edits).headed := by
      rw [loads]
      exact plain.soundtrack.edited_headed edits
    show (behind.soundtrack.edited edits).save (image.headed header) = _
    rw [edited]
    exact save_headed header bare _
  have samples : plain.soundtrack.headed.samples = plain.soundtrack.samples := by
    simp only [Soundtrack.samples, headed, List.map_map]
    rfl
  rw [loads, saves]
  exact ⟨Iff.rfl, rfl, rfl, samples, rfl, rfl, isOk_mapError _ _ _, rfl⟩

theorem bare_creditsImage : creditsImage.Bare := by
  have size : creditsImage.size = 0x1B0000 := Image.size_ofBlocks _
  exact ⟨by rw [size]; decide, by rw [size]⟩

/-- A copier header without anything in it. -/
def blankHeader : Vector UInt8 Image.headerSize := Vector.replicate Image.headerSize 0

/-- An image that loads, and a song that is added. -/
theorem header_invisible_creditsImage :
    creditsImage.Bare ∧
      let plain := ({} : Soundtrack).load creditsImage
      let behind := ({} : Soundtrack).load (creditsImage.headed blankHeader)
      let edits := [Edit.createSong "Encore" .credits]
      behind.outcome = .ok () ∧ behind.soundtrack.songs = plain.soundtrack.songs ∧
        ((behind.soundtrack.edited edits).save (creditsImage.headed blankHeader)).image =
          ((plain.soundtrack.edited edits).save creditsImage).image.headed blankHeader := by
  have whole := header_invisible blankHeader bare_creditsImage {}
    [Edit.createSong "Encore" .credits]
  dsimp only at whole ⊢
  obtain ⟨loads, songs, -, -, -, -, -, saved⟩ := whole
  exact ⟨bare_creditsImage, loads.mpr loads_creditsImage, songs, saved⟩

end SnesMusic
