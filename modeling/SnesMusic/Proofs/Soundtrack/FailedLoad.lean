import SnesMusic.Proofs.Soundtrack.SampleColumns

/-!
# Loads that fail

A load puts the songs of the image in place before it comes to the instruments and samples, and only
when these have been read does it count the soundtrack as loaded. Main statements: a soundtrack
counts as loaded from the first load or restore that succeeds on, and nothing ends that
(`loaded_run`); hence a load that fails at the instruments or samples leaves a soundtrack of songs
without samples, which counts as loaded just where music had been loaded before (`failed_load`).
-/
namespace SnesMusic

/-! ### What stays through a save -/

namespace Saving

theorem loaded_saveSongs (bank : Bank) (s : Saving) :
    (saveSongs bank s).soundtrack.loaded = s.soundtrack.loaded := by
  have pointed : ∀ t : Saving, (t.writePointer bank).soundtrack.loaded = t.soundtrack.loaded := by
    intro t
    unfold writePointer
    cases bank.pointerBytes <;> rfl
  cases placed : (placement bank s).outcome with
  | error e =>
    rw [saveSongs_eq_of_refused placed]
    rfl
  | ok u =>
    rw [saveSongs_eq_of_placed placed]
    refine (part_andThen Soundtrack.loaded ?_).trans (part_andThen Soundtrack.loaded pointed)
    exact fun _ => rfl

end Saving

namespace Soundtrack

variable {s : Soundtrack} {image : Image} {e : MusicError}

/-- A save does not change whether a soundtrack counts as loaded. -/
theorem loaded_save (s : Soundtrack) (image : Image) :
    (s.save image).soundtrack.loaded = s.loaded := by
  have written : (s.writeAll image).soundtrack.loaded = s.loaded := by
    rw [soundtrack_writeAll, saveBanks]
    exact Saving.part_each Soundtrack.loaded Saving.loaded_saveSongs
  rcases refused_or_checked s image with ⟨other, -, stopped⟩ | ⟨loaded, there, checked⟩
  · rw [stopped]
  · rw [save_eq_of_check loaded there checked]
    refine (Saving.part_andThen Soundtrack.loaded ?_).trans written
    exact fun _ => rfl

/-! ### When a soundtrack counts as loaded -/

/-- Whether a request supplies a soundtrack with music, of an image or of a text. -/
def Supplied (s : Soundtrack) : Request → Prop
  | .load image => (s.load image).outcome = .ok ()
  | .edit (.restore text) => (s.loadJson text).isOk = true
  | _ => False

/-- Whether one of several requests supplies music. -/
def EverSupplied (s : Soundtrack) : List Request → Prop
  | [] => False
  | request :: rest => s.Supplied request ∨ (s.after request).EverSupplied rest

/-- Of all edits it is a restore that makes a soundtrack count as loaded. -/
theorem loaded_edit (s : Soundtrack) (edit : Edit) :
    ((edit.apply s).toOption.getD s).loaded = true ↔
      s.loaded = true ∨ s.Supplied (.edit edit) := by
  have sound : ∀ index change,
      ((s.updateSong index change).toOption.getD s).loaded = s.loaded := by
    intro index change
    rw [updateSong]
    cases s.song? index <;> rfl
  have sample : ∀ index change,
      ((s.updateSample index change).toOption.getD s).loaded = s.loaded := by
    intro index change
    rw [updateSample]
    cases s.entry? index <;> rfl
  have unsupplied : ∀ t : Soundtrack, t.loaded = s.loaded →
      (t.loaded = true ↔ s.loaded = true ∨ False) := by
    intro t kept
    rw [kept, or_false]
  cases edit with
  | createSong name bank | addSong song | createInstrument name => exact unsupplied _ rfl
  | duplicateSong index =>
    refine unsupplied _ ?_
    rw [Edit.apply, duplicateSong]
    cases s.song? index <;> rfl
  | deleteSong index =>
    refine unsupplied _ ?_
    rw [Edit.apply, deleteSong]
    cases s.song? index with
    | error e => rfl
    | ok song => cases isVanilla index <;> rfl
  | changeSong index change => exact unsupplied _ (sound index change)
  | placeSong song replace =>
    refine unsupplied _ ?_
    rw [Edit.apply, placeSong]
    cases if replace then s.indexOfName? song.name else none with
    | none => rfl
    | some index =>
      have kept := sound index fun old =>
        { song with bank := old.bank, address := old.address, modified := true }
      simp only [replaceSong]
      cases updated : s.updateSong index _ with
      | error e => rfl
      | ok t =>
        rw [updated] at kept
        exact kept
  | changeInstrument index change =>
    refine unsupplied _ ?_
    rw [Edit.apply, updateInstrument]
    cases s.instrument? index <;> rfl
  | changeSample index change => exact unsupplied _ (sample index change)
  | importSample name file =>
    refine unsupplied _ ?_
    rw [Edit.apply, importSample, Report.outcome_bind, Report.outcome_ofExcept]
    cases Wave.ofFile file <;> rfl
  | replaceSample index file =>
    refine unsupplied _ ?_
    simp only [Edit.apply, replaceSample, Report.outcome_bind, Report.outcome_ofExcept]
    cases Wave.ofFile file with
    | error e => rfl
    | ok wave =>
      have kept := sample index fun sample => Sample.ofWave sample.name wave
      cases found : s.sample? index with
      | error e => rfl
      | ok old => exact kept
  | restore text =>
    rw [Supplied, Edit.apply, loadJson]
    cases Json.Value.ofText? text >>= State.ofValue? with
    | none => simp [Except.isOk, Except.toBool, Except.toOption]
    | some state => simp [Except.isOk, Except.toBool, Except.toOption, restore]

theorem loaded_load (s : Soundtrack) (image : Image) :
    (s.load image).soundtrack.loaded = true ↔
      s.loaded = true ∨ (s.load image).outcome = .ok () := by
  unfold load
  split
  · simp
  · simp only
    cases loadInstruments (Uploads.ofImage image .common) with
    | error e => simp
    | ok instruments =>
      simp only
      cases loadSamples (Uploads.ofImage image .common) <;> simp

theorem loaded_after (s : Soundtrack) (request : Request) :
    (s.after request).loaded = true ↔ s.loaded = true ∨ s.Supplied request := by
  cases request with
  | load image => exact s.loaded_load image
  | edit edit => exact s.loaded_edit edit
  | save image =>
    rw [after, loaded_save]
    exact (or_false _).symm.to_iff

/-- A soundtrack counts as loaded once it has been supplied with music, whatever was requested
afterwards. -/
theorem loaded_run (s : Soundtrack) (requests : List Request) :
    (requests.foldl after s).loaded = true ↔ s.loaded = true ∨ s.EverSupplied requests := by
  induction requests generalizing s with
  | nil => rw [List.foldl_nil, EverSupplied, or_false]
  | cons request rest ih => rw [List.foldl_cons, ih, loaded_after, EverSupplied, or_assoc]

/-! ### What a failure leaves -/

/-- A load of an image fails where the instruments cannot be read, or else the samples. -/
theorem load_failed (there : image.isLoaded = true) (failed : (s.load image).outcome = .error e) :
    let songs := (loadSongs image s.config).value
    let common := Uploads.ofImage image .common
    ∃ instruments, (s.load image).soundtrack = {
        config := s.config
        loaded := s.loaded
        hook := image.expandedHook?
        songs := songs.songs
        tableSlots := songs.tableSlots
        instruments } ∧
      (loadInstruments common = .error e ∧ instruments = [] ∨
        loadInstruments common = .ok instruments ∧ loadSamples common = .error e) := by
  unfold load at failed ⊢
  rw [if_neg (by simp [there])] at failed ⊢
  simp only at failed ⊢
  cases table : loadInstruments (Uploads.ofImage image .common) with
  | error other =>
    simp only [table, Except.error.injEq] at failed
    exact ⟨[], rfl, .inl ⟨congrArg Except.error failed, rfl⟩⟩
  | ok instruments =>
    simp only [table] at failed ⊢
    cases samples : loadSamples (Uploads.ofImage image .common) with
    | error other =>
      simp only [samples, Except.error.injEq] at failed
      exact ⟨instruments, rfl, .inr ⟨rfl, congrArg Except.error failed⟩⟩
    | ok entries => simp [samples] at failed

/-- A load that fails, after any requests, successful or not. Without an image nothing changes.
Otherwise the songs are those of the image, there are no samples and at most its instruments, and
nothing is left to be saved; and this half of a soundtrack counts as loaded, so that a save to any
image goes through, just where one of the requests had supplied music. -/
theorem failed_load (config : Config) (requests : List Request)
    (failed : ((requests.foldl after (new config)).load image).outcome = .error e) :
    let s := requests.foldl after (new config)
    let t := (s.load image).soundtrack
    image.isLoaded = false ∧ e = .imageNotLoaded ∧ t = s ∨
      image.isLoaded = true ∧
        t.songs = (loadSongs image s.config).value.songs ∧
        (loadInstruments (Uploads.ofImage image .common) = .error e ∧ t.instruments = [] ∨
          loadInstruments (Uploads.ofImage image .common) = .ok t.instruments ∧
            loadSamples (Uploads.ofImage image .common) = .error e) ∧
        t.samples = [] ∧ t.hasModifications = false ∧
        (t.loaded = true ↔ (new config).EverSupplied requests) ∧
        ∀ other, other.isLoaded = true →
          ((t.save other).outcome = .ok () ↔ (new config).EverSupplied requests) := by
  intro s t
  cases there : image.isLoaded with
  | false =>
    have refused : s.load image =
        { soundtrack := s, notices := [], outcome := .error .imageNotLoaded } := by
      rw [load, there]
      rfl
    rw [refused] at failed
    exact .inl ⟨rfl, (Except.error.inj failed).symm, congrArg Loading.soundtrack refused⟩
  | true =>
    obtain ⟨instruments, half, stopped⟩ := load_failed there failed
    replace half : t = _ := half
    have only : t.SongsOnly := by
      rw [half]
      exact ⟨rfl, by simp⟩
    have untouched : ∀ bank, t.touched bank = false := fun bank => by rw [half]
    have clean : t.dirtyBanks = [] := dirtyBanks_eq_nil untouched (modified_of_load there)
    have loaded : t.loaded = true ↔ (new config).EverSupplied requests := by
      have fresh : ¬(new config).loaded = true := Bool.false_ne_true
      rw [loaded_load, failed, loaded_run, or_iff_right fresh]
      simp
    refine .inr ⟨rfl, ?_, ?_, ?_, hasModifications_of_clean only clean, loaded, ?_⟩
    · rw [half]
    · rw [half]
      exact stopped
    · rw [half]
      rfl
    · intro other filled
      rw [← loaded]
      refine ⟨fun saved => ?_, fun ready => (save_of_clean only clean ready filled).1⟩
      by_contra missing
      rw [save, Bool.eq_false_of_not_eq_true missing] at saved
      simp [Saving.fail] at saved

end Soundtrack

/-- An image without music, not even instruments. -/
def blankImage : Image := .ofBlocks []

theorem isLoaded_blankImage : blankImage.isLoaded = true := Image.isLoaded_ofBlocks _

theorem uploads_blankImage :
    Uploads.ofImage blankImage .common = { bank := .common, blocks := [] } := by
  rw [blankImage, Image.uploads_ofBlocks (by decide) (by decide)]
  rfl

theorem fails_blankImage (s : Soundtrack) :
    (s.load blankImage).outcome = .error (.addressNotFound 0x3D00 .common) := by
  have none : loadInstruments (Uploads.ofImage blankImage .common) =
      .error (.addressNotFound 0x3D00 .common) := by
    rw [uploads_blankImage]
    rfl
  rw [Soundtrack.load, isLoaded_blankImage]
  simp only [none, Bool.not_true, Bool.false_eq_true, if_false]

/-- Where one image was loaded and another could not be, there are neither instruments nor samples,
and a save goes through. -/
theorem failed_load_blankImage :
    let s := ([Request.load creditsImage].foldl Soundtrack.after (.new {})).load blankImage
    s.outcome = .error (.addressNotFound 0x3D00 .common) ∧
      s.soundtrack.samples = [] ∧ s.soundtrack.loaded = true ∧
      (s.soundtrack.save creditsImage).outcome = .ok () := by
  have failed := fails_blankImage ([Request.load creditsImage].foldl Soundtrack.after (.new {}))
  have supplied : (Soundtrack.new {}).EverSupplied [.load creditsImage] := .inl loads_creditsImage
  have half := Soundtrack.failed_load {} [.load creditsImage] failed
  simp only [isLoaded_blankImage, Bool.true_eq_false, false_and, false_or, true_and] at half
  obtain ⟨-, -, none, -, loaded, saves⟩ := half
  exact ⟨failed, none, loaded.mpr supplied, (saves _ isLoaded_creditsImage).mpr supplied⟩

end SnesMusic
