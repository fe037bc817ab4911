import SnesMusic.Proofs.Soundtrack.Loading
import SnesMusic.Proofs.Soundtrack.Saving
import SnesMusic.Soundtrack.Edit

/-!
# Runs of song operations

Songs are created, added, copied, taken out and changed, and may be saved in between. Main
statements: loading yields a soundtrack without changes (`songsOnly_load`), operations on songs
change nothing else that would have to be saved (`SongRun.songsOnly`), and additions keep the songs
that there are (`SongAdditions.extends_start`).
-/
namespace SnesMusic

/-- An operation on the songs of a soundtrack. A change may be any function of the song. -/
inductive SongStep : Soundtrack → Soundtrack → Prop where
  | create (s : Soundtrack) (name : String) (bank : Bank) : SongStep s (s.createSong name bank)
  | add (s : Soundtrack) (song : Song) : SongStep s (s.addSong song)
  | duplicate {s t : Soundtrack} {index : Nat} (done : s.duplicateSong index = .ok t) :
      SongStep s t
  | delete {s t : Soundtrack} {index : Nat} {song : Song}
      (done : s.deleteSong index = .ok (song, t)) : SongStep s t
  | update {s t : Soundtrack} {index : Nat} {change : Song → Song}
      (done : s.updateSong index change = .ok t) : SongStep s t
  | save (s : Soundtrack) (image : Image) : SongStep s (s.save image).soundtrack

/-- Any number of operations, one after the other. -/
inductive SongRun : Soundtrack → Soundtrack → Prop where
  | refl (s : Soundtrack) : SongRun s s
  | tail {s t u : Soundtrack} (run : SongRun s t) (step : SongStep t u) : SongRun s u

namespace Soundtrack

open Saving (Kept)

theorem SongsOnly.of_kept {s t : Soundtrack} (only : s.SongsOnly) (kept : Kept s t) :
    t.SongsOnly :=
  ⟨kept.instrumentsModified.trans only.instruments, fun entry member =>
    only.samples entry (kept.entries ▸ member)⟩

theorem modified_loadSample (common : Uploads) (directory index : Nat) (start loop : UInt16) :
    (loadSample common directory index start loop).modified = false := by
  unfold loadSample
  simp only
  split <;> rfl

/-- Nothing that is loaded is modified. -/
theorem loadSamples_unmodified {common : Uploads} {entries : List SampleEntry}
    (loaded : loadSamples common = .ok entries) : ∀ entry ∈ entries, entry.modified = false := by
  unfold loadSamples at loaded
  cases place : common.offset? sampleDirectoryAddress with
  | none => simp [place] at loaded
  | some directory =>
    cases read : common.require sampleDirectoryAddress with
    | error e => simp [place, read, bind, Except.bind] at loaded
    | ok data =>
      simp only [place, read, bind, Except.bind, pure, Except.pure, Except.ok.injEq] at loaded
      subst loaded
      intro entry member
      obtain ⟨numbered, -, rfl⟩ := List.mem_map.mp member
      exact modified_loadSample ..

theorem config_load (s : Soundtrack) (image : Image) :
    (s.load image).soundtrack.config = s.config := by
  cases there : image.isLoaded with
  | false =>
    rw [load, there]
    rfl
  | true =>
    obtain ⟨instruments, entries, loaded, same⟩ := load_eq s there
    rw [same]

/-- What a load that succeeds comes to. -/
theorem load_ok {s : Soundtrack} {image : Image} (ok : (s.load image).outcome = .ok ()) :
    image.isLoaded = true ∧ ∃ instruments entries,
      loadSamples (Uploads.ofImage image .common) = .ok entries ∧
        (s.load image).soundtrack = {
          config := s.config
          songs := (loadSongs image s.config).value.songs
          instruments
          entries
          tableSlots := (loadSongs image s.config).value.tableSlots
          loaded := true
          hook := image.expandedHook? } := by
  unfold load at ok ⊢
  by_cases blank : (!image.isLoaded) = true
  · simp [blank] at ok
  · rw [if_neg blank] at ok ⊢
    simp only at ok ⊢
    cases instruments : loadInstruments (Uploads.ofImage image .common) with
    | error e => simp [instruments] at ok
    | ok table =>
      simp only [instruments] at ok ⊢
      cases samples : loadSamples (Uploads.ofImage image .common) with
      | error e => simp [samples] at ok
      | ok entries => exact ⟨by simpa using blank, table, entries, rfl, rfl⟩

theorem songsOnly_load {s : Soundtrack} {image : Image} (ok : (s.load image).outcome = .ok ()) :
    (s.load image).soundtrack.SongsOnly := by
  obtain ⟨-, instruments, entries, samples, same⟩ := load_ok ok
  rw [same]
  exact ⟨rfl, loadSamples_unmodified samples⟩

theorem outcome_load (s : Soundtrack) {image : Image} (there : image.isLoaded = true)
    (instruments : (loadInstruments (Uploads.ofImage image .common)).isOk = true)
    (samples : (loadSamples (Uploads.ofImage image .common)).isOk = true) :
    (s.load image).outcome = .ok () := by
  cases table : loadInstruments (Uploads.ofImage image .common) with
  | error e => simp [table, Except.isOk, Except.toBool] at instruments
  | ok table' =>
    cases entries : loadSamples (Uploads.ofImage image .common) with
    | error e => simp [entries, Except.isOk, Except.toBool] at samples
    | ok entries' => simp [load, there, table, entries]

variable {s t : Soundtrack} {index : Nat}

theorem getElem?_of_song? {song : Song} (found : s.song? index = .ok song) :
    s.songs[index]? = some song := by
  unfold song? at found
  cases listed : s.songs[index]? with
  | none => simp [listed] at found
  | some there =>
    simp only [listed, Except.ok.injEq] at found
    rw [found]

theorem duplicateSong_ok (done : s.duplicateSong index = .ok t) :
    ∃ song, s.song? index = .ok song ∧
      t = s.addSong { song with name := song.name ++ " (Copy)" } := by
  unfold duplicateSong at done
  cases found : s.song? index with
  | error e => simp [found, bind, Except.bind] at done
  | ok song =>
    simp only [found, bind, Except.bind, pure, Except.pure, Except.ok.injEq] at done
    exact ⟨song, rfl, done.symm⟩

theorem deleteSong_ok {song : Song} (done : s.deleteSong index = .ok (song, t)) :
    s.song? index = .ok song ∧
      t = { s with songs := s.songs.eraseIdx index }.touch song.bank := by
  unfold deleteSong at done
  cases found : s.song? index with
  | error e => simp [found, bind, Except.bind] at done
  | ok old =>
    simp only [found, bind, Except.bind, pure, Except.pure] at done
    split at done
    · simp at done
    · simp only [Except.ok.injEq, Prod.mk.injEq] at done
      obtain ⟨rfl, rfl⟩ := done
      exact ⟨rfl, rfl⟩

theorem isVanilla_of_deleteSong {song : Song} (done : s.deleteSong index = .ok (song, t)) :
    isVanilla index = false := by
  unfold deleteSong at done
  cases found : s.song? index with
  | error e => simp [found, bind, Except.bind] at done
  | ok old =>
    simp only [found, bind, Except.bind] at done
    split at done
    · simp at done
    · rename_i free
      exact Bool.eq_false_iff.mpr free

theorem updateSong_ok {change : Song → Song} (done : s.updateSong index change = .ok t) :
    ∃ song, s.song? index = .ok song ∧
      t = { s with songs := s.songs.set index (change { song with modified := true }) }.touch
        song.bank := by
  unfold updateSong at done
  cases found : s.song? index with
  | error e => simp [found, bind, Except.bind] at done
  | ok song =>
    simp only [found, bind, Except.bind, pure, Except.pure, Except.ok.injEq] at done
    exact ⟨song, rfl, done.symm⟩

/-- Changing a song that was loaded. -/
theorem updateSong_load {s : Soundtrack} {image : Image} (ok : (s.load image).outcome = .ok ())
    {index : Nat} {song : Song} (found : (s.load image).soundtrack.songs[index]? = some song)
    (change : Song → Song) :
    ∃ t, (s.load image).soundtrack.updateSong index change = .ok t ∧ t.config = s.config ∧
      t.loaded = true ∧ t.touched = Bank.update (fun _ => false) song.bank true ∧
      t.songs = (s.load image).soundtrack.songs.set index
        (change { song with modified := true }) := by
  obtain ⟨-, instruments, entries, -, same⟩ := load_ok ok
  rw [same] at found ⊢
  simp only at found
  simp only [updateSong, song?, found, bind, Except.bind, pure, Except.pure, Except.ok.injEq]
  exact ⟨_, rfl, rfl, rfl, rfl, rfl⟩

/-- Saving songs leaves nothing else modified, whether or not it succeeds. -/
theorem songsOnly_save {s : Soundtrack} (only : s.SongsOnly) (image : Image) :
    (s.save image).soundtrack.SongsOnly ∧ (s.save image).soundtrack.config = s.config := by
  have kept := Saving.kept_each_saveSongs s.dirtyBanks { soundtrack := s, image }
  have unmodified : ∀ entry ∈ s.entries.zipIdx, entry.1.modified = false :=
    fun entry member => only.samples _ (List.fst_mem_of_mem_zipIdx member)
  have same : ∀ saving : Saving, saving.andThen (fun saving => saving) = saving := by
    intro saving
    unfold Saving.andThen
    split <;> rfl
  unfold save
  split
  · exact ⟨only, rfl⟩
  · split
    · exact ⟨only, rfl⟩
    · cases s.check with
      | error e => exact ⟨only, rfl⟩
      | ok u =>
        simp only [only.instruments, Bool.false_eq_true, if_false,
          Saving.each_saveSample unmodified, same]
        unfold Saving.andThen
        split
        · refine ⟨⟨rfl, ?_⟩, kept.config⟩
          intro entry member
          obtain ⟨before, -, rfl⟩ := List.mem_map.mp member
          rfl
        · exact ⟨only.of_kept kept, kept.config⟩

end Soundtrack

open Soundtrack

/-- An operation on songs changes nothing else that would have to be saved. -/
theorem SongStep.songsOnly {s t : Soundtrack} (step : SongStep s t) (only : s.SongsOnly) :
    t.SongsOnly ∧ t.config = s.config := by
  cases step with
  | create name bank => exact ⟨⟨only.instruments, only.samples⟩, rfl⟩
  | add song => exact ⟨⟨only.instruments, only.samples⟩, rfl⟩
  | duplicate done =>
    obtain ⟨song, -, rfl⟩ := duplicateSong_ok done
    exact ⟨⟨only.instruments, only.samples⟩, rfl⟩
  | delete done =>
    obtain ⟨-, rfl⟩ := deleteSong_ok done
    exact ⟨⟨only.instruments, only.samples⟩, rfl⟩
  | update done =>
    obtain ⟨song, -, rfl⟩ := updateSong_ok done
    exact ⟨⟨only.instruments, only.samples⟩, rfl⟩
  | save image => exact songsOnly_save only image

theorem SongRun.songsOnly {s t : Soundtrack} (run : SongRun s t) (only : s.SongsOnly) :
    t.SongsOnly ∧ t.config = s.config := by
  induction run with
  | refl => exact ⟨only, rfl⟩
  | tail _ step ih =>
    obtain ⟨only, config⟩ := ih
    obtain ⟨still, same⟩ := step.songsOnly only
    exact ⟨still, same.trans config⟩

/-! ### Additions -/

/-- Songs that are created, added or copied, one after the other. -/
inductive SongAdditions (start : Soundtrack) : Soundtrack → Prop where
  | none : SongAdditions start start
  | create {s : Soundtrack} (before : SongAdditions start s) (name : String) (bank : Bank) :
      SongAdditions start (s.createSong name bank)
  | add {s : Soundtrack} (before : SongAdditions start s) (song : Song) :
      SongAdditions start (s.addSong song)
  | duplicate {s t : Soundtrack} (before : SongAdditions start s) {index : Nat}
      (done : s.duplicateSong index = .ok t) : SongAdditions start t

/-- Songs at the end are all that sets the one soundtrack apart from the other. -/
structure Soundtrack.Extends (start s : Soundtrack) : Prop where
  config : s.config = start.config
  entries : s.entries = start.entries
  loaded : s.loaded = start.loaded
  touched : s.touched = start.touched
  instrumentsModified : s.instrumentsModified = start.instrumentsModified
  songs : ∃ added, s.songs = start.songs ++ added

theorem Soundtrack.Extends.addSong {start s : Soundtrack} (more : start.Extends s) (song : Song) :
    start.Extends (s.addSong song) := by
  obtain ⟨added, songs⟩ := more.songs
  refine ⟨more.config, more.entries, more.loaded, more.touched, more.instrumentsModified,
    added ++ [{ song with modified := true }], ?_⟩
  rw [Soundtrack.addSong, songs, List.append_assoc]

/-- The other soundtrack has nothing but songs to save if the one has. -/
theorem Soundtrack.Extends.songsOnly {start s : Soundtrack} (more : start.Extends s)
    (only : start.SongsOnly) : s.SongsOnly :=
  ⟨more.instrumentsModified.trans only.instruments, fun entry member =>
    only.samples entry (more.entries ▸ member)⟩

/-- After a load, songs at the end are all there is to save. -/
theorem Soundtrack.Extends.of_load {start s : Soundtrack} {image : Image}
    (more : (start.load image).soundtrack.Extends s)
    (loaded : (start.load image).outcome = .ok ()) :
    s.loaded = true ∧ s.SongsOnly ∧ s.config = start.config ∧ s.touched = fun _ => false := by
  obtain ⟨-, instruments, entries, -, same⟩ := load_ok loaded
  refine ⟨?_, more.songsOnly (songsOnly_load loaded), more.config.trans (config_load _ _), ?_⟩
  · rw [more.loaded, same]
  · rw [more.touched, same]

/-- Additions keep the songs that there are, and all else. -/
theorem SongAdditions.extends_start {start s : Soundtrack} (added : SongAdditions start s) :
    start.Extends s := by
  induction added with
  | none => exact ⟨rfl, rfl, rfl, rfl, rfl, [], (List.append_nil _).symm⟩
  | create _ name bank ih => exact ih.addSong (Song.new name bank)
  | add _ song ih => exact ih.addSong song
  | duplicate _ done ih =>
    obtain ⟨song, -, rfl⟩ := duplicateSong_ok done
    exact ih.addSong _

/-- Songs that are added one after the other stand at the end, marked as modified. -/
theorem additions_addSongs {start s : Soundtrack} (songs : List Song)
    (before : SongAdditions start s) :
    SongAdditions start (songs.foldl addSong s) ∧ (songs.foldl addSong s).songs =
      s.songs ++ songs.map fun song => { song with modified := true } := by
  induction songs generalizing s with
  | nil => exact ⟨before, (List.append_nil _).symm⟩
  | cons song rest ih =>
    obtain ⟨added, listed⟩ := ih (before.add song)
    exact ⟨added, listed.trans (List.append_assoc _ _ _)⟩

end SnesMusic
