import SnesMusic.Proofs.Soundtrack.FailedSave

/-!
# Dirty banks

What the banks that count as dirty tell about the songs. A bank is dirty when a song was taken out
of it or changed in it, or when one of its songs is marked as modified; a save that fails moves
songs of dirty banks and clears no mark. Main statements: every operation on songs leaves dirty
banks dirty and changes no bank that is clean afterwards (`EditStep.tracked`), so that after any run
of operations a bank that is not dirty has the songs that it had when it was loaded or saved
(`clean_banks_kept`).
-/
namespace SnesMusic

namespace Soundtrack

variable {s t u : Soundtrack} {bank : Bank}

theorem mem_dirtyBanks : bank ∈ s.dirtyBanks ↔ s.isDirty bank = true := by
  rw [dirtyBanks, List.mem_filter, and_iff_right bank.mem_all]

theorem isDirty_iff : s.isDirty bank = true ↔
    s.touched bank = true ∨ ∃ song ∈ s.songs, song.modified = true ∧ song.bank = bank := by
  rw [isDirty, Bool.or_eq_true, List.any_eq_true]
  simp only [Bool.and_eq_true, beq_iff_eq]

/-! ### Tracked changes -/

/-- What changes from one soundtrack to another is tracked: dirty banks stay dirty, and banks that
are not dirty afterwards have the songs they had. -/
structure Tracked (s t : Soundtrack) : Prop where
  stays : ∀ bank ∈ s.dirtyBanks, bank ∈ t.dirtyBanks
  same : ∀ bank, bank ∉ t.dirtyBanks → t.songsIn bank = s.songsIn bank

theorem Tracked.refl (s : Soundtrack) : Tracked s s := ⟨fun _ dirty => dirty, fun _ _ => rfl⟩

theorem Tracked.trans (h : Tracked s t) (h' : Tracked t u) : Tracked s u := by
  constructor
  · intro bank dirty
    exact h'.stays bank (h.stays bank dirty)
  · intro bank clean
    rw [h'.same bank clean, h.same bank fun dirty => clean (h'.stays bank dirty)]

/-- Songs are exchanged for others in one place. The change is tracked when the banks of those that
go are touched and those that come are marked. -/
theorem tracked_of_exchange (front out into behind : List Song)
    (before : s.songs = front ++ (out ++ behind)) (after : t.songs = front ++ (into ++ behind))
    (touched : ∀ bank, s.touched bank = true → t.touched bank = true)
    (gone : ∀ song ∈ out, t.touched song.bank = true)
    (marked : ∀ song ∈ into, song.modified = true) : Tracked s t := by
  constructor
  · intro bank dirty
    rw [mem_dirtyBanks, isDirty_iff] at dirty ⊢
    rcases dirty with mark | ⟨song, listed, modified, here⟩
    · exact Or.inl (touched bank mark)
    · rw [before, List.mem_append, List.mem_append] at listed
      rcases listed with first | left | last
      · exact Or.inr ⟨song, by rw [after]; exact List.mem_append_left _ first, modified, here⟩
      · exact Or.inl (here ▸ gone song left)
      · refine Or.inr ⟨song, ?_, modified, here⟩
        rw [after]
        exact List.mem_append_right _ (List.mem_append_right _ last)
  · intro bank clean
    rw [mem_dirtyBanks, isDirty_iff, not_or] at clean
    obtain ⟨untouched, unmarked⟩ := clean
    -- A bank that is clean afterwards has none of the songs that go and none of those that come.
    have none_out : out.filter (·.bank == bank) = [] := by
      rw [List.filter_eq_nil_iff]
      intro song left same
      exact untouched (eq_of_beq same ▸ gone song left)
    have none_into : into.filter (·.bank == bank) = [] := by
      rw [List.filter_eq_nil_iff]
      intro song comes same
      refine unmarked ⟨song, ?_, marked song comes, eq_of_beq same⟩
      rw [after]
      exact List.mem_append_right _ (List.mem_append_left _ comes)
    rw [songsIn, songsIn, before, after, List.filter_append, List.filter_append,
      List.filter_append, List.filter_append, none_out, none_into]

theorem tracked_addSong (s : Soundtrack) (song : Song) : Tracked s (s.addSong song) := by
  apply tracked_of_exchange s.songs [] [{ song with modified := true }] []
  · simp
  · rw [List.append_nil]
    rfl
  · exact fun _ mark => mark
  · simp
  · simp

/-- A song among those in front of it and behind it. -/
theorem songs_split {index : Nat} {song : Song} (found : s.song? index = .ok song) :
    s.songs = s.songs.take index ++ ([song] ++ s.songs.drop (index + 1)) ∧
      index < s.songs.length := by
  obtain ⟨inside, rfl⟩ := List.getElem?_eq_some_iff.mp (getElem?_of_song? found)
  refine ⟨?_, inside⟩
  rw [List.singleton_append, ← List.drop_eq_getElem_cons inside, List.take_append_drop]

theorem touched_touch (s : Soundtrack) (bank : Bank) : (s.touch bank).touched bank = true :=
  Bank.update_same ..

theorem touched_touch_of_touched {other : Bank} (mark : s.touched other = true) (bank : Bank) :
    (s.touch bank).touched other = true := by
  by_cases same : other = bank
  · subst same
    exact s.touched_touch other
  · exact (Bank.update_of_ne _ _ same).trans mark

theorem tracked_deleteSong {index : Nat} {song : Song}
    (done : s.deleteSong index = .ok (song, t)) : Tracked s t := by
  obtain ⟨found, rfl⟩ := deleteSong_ok done
  apply tracked_of_exchange _ [song] [] _ (songs_split found).1
  · exact List.eraseIdx_eq_take_drop_succ ..
  · exact fun _ mark => touched_touch_of_touched mark _
  · exact List.forall_mem_singleton.mpr (touched_touch _ _)
  · simp

/-- A song may be changed in any way, and be moved to any bank, as long as it stays marked. -/
theorem tracked_updateSong {index : Nat} {change : Song → Song}
    (keeps : ∀ song, (change song).modified = song.modified)
    (done : s.updateSong index change = .ok t) : Tracked s t := by
  obtain ⟨song, found, rfl⟩ := updateSong_ok done
  obtain ⟨split, inside⟩ := songs_split found
  apply tracked_of_exchange _ [song] [change { song with modified := true }] _ split
  · show s.songs.set index _ = _
    rw [List.set_eq_take_append_cons_drop, if_pos inside]
    rfl
  · exact fun _ mark => touched_touch_of_touched mark _
  · exact List.forall_mem_singleton.mpr (touched_touch _ _)
  · exact List.forall_mem_singleton.mpr (keeps _)

/-! ### Saves that fail -/

/-- What saving songs of some banks does to a soundtrack, as far as it gets: the songs of these
banks may be moved, and nothing is marked or unmarked. -/
structure Moved (banks : Bank → Prop) (s t : Soundtrack) : Prop where
  touched : t.touched = s.touched
  marks : t.songs.map (fun song => (song.bank, song.modified)) =
    s.songs.map fun song => (song.bank, song.modified)
  others : ∀ bank, ¬banks bank → t.songsIn bank = s.songsIn bank

variable {banks banks' : Bank → Prop}

theorem Moved.refl (banks : Bank → Prop) (s : Soundtrack) : Moved banks s s :=
  ⟨rfl, rfl, fun _ _ => rfl⟩

theorem Moved.trans (h : Moved banks s t) (h' : Moved banks t u) : Moved banks s u :=
  ⟨h'.touched.trans h.touched, h'.marks.trans h.marks, fun bank apart =>
    (h'.others bank apart).trans (h.others bank apart)⟩

theorem Moved.mono (h : Moved banks s t) (le : ∀ bank, banks bank → banks' bank) :
    Moved banks' s t :=
  ⟨h.touched, h.marks, fun bank apart => h.others bank fun inside => apart (le bank inside)⟩

/-- Dirtiness is a matter of the marks. -/
theorem Moved.dirtyBanks_eq (h : Moved banks s t) : t.dirtyBanks = s.dirtyBanks := by
  have marked : ∀ r : Soundtrack, ∀ bank, r.isDirty bank = (r.touched bank ||
      (r.songs.map fun song => (song.bank, song.modified)).any fun mark =>
        mark.2 && mark.1 == bank) := by
    intro r bank
    rw [isDirty, List.any_map]
    rfl
  have same : t.isDirty = s.isDirty := by
    funext bank
    rw [marked t, marked s, h.touched, h.marks]
  rw [dirtyBanks, dirtyBanks, same]

/-- Moving songs of dirty banks is tracked. -/
theorem Moved.tracked (h : Moved (· ∈ s.dirtyBanks) s t) : Tracked s t := by
  constructor
  · intro bank dirty
    rw [h.dirtyBanks_eq]
    exact dirty
  · intro bank clean
    rw [h.dirtyBanks_eq] at clean
    exact h.others bank clean

end Soundtrack

/-- Placing songs changes their addresses only, be it successful or not. -/
theorem Placement.map_ofSongs {α : Type} {f : Song → α}
    (same : ∀ song address, f (song.movedTo address) = f song) {bank : Bank} {address : Nat}
    {songs : List Song} : (ofSongs bank address songs).songs.map f = songs.map f := by
  induction songs generalizing address with
  | nil => rfl
  | cons song rest ih =>
    by_cases here : song.bank = bank
    · rw [ofSongs_here here]
      split
      · rfl
      · cases song.encode (UInt16.ofNat address) with
        | error e => rfl
        | ok encoding =>
          simp only
          split
          · rfl
          · rw [cons, List.map_cons, List.map_cons, ih, same]
    · rw [ofSongs_elsewhere here, List.map_cons, List.map_cons, ih]

namespace Saving

open Soundtrack (Moved)

variable {s : Saving} {bank : Bank}

theorem soundtrack_andThen {step : Saving → Saving}
    (kept : (step s).soundtrack = s.soundtrack) : (s.andThen step).soundtrack = s.soundtrack := by
  unfold andThen
  cases s.outcome with
  | error e => rfl
  | ok u => exact kept

theorem soundtrack_saveInstruments (s : Saving) : s.saveInstruments.soundtrack = s.soundtrack := by
  unfold saveInstruments
  simp only
  split
  · rfl
  · show (if _ then s else _ : Saving).soundtrack = _
    split <;> rfl

theorem soundtrack_saveSample (entry : SampleEntry × Nat) (s : Saving) :
    (saveSample entry s).soundtrack = s.soundtrack := by
  unfold saveSample
  split
  · rfl
  · split
    · rfl
    · exact soundtrack_andThen rfl

section Parts

variable {β : Type} (part : Soundtrack → β)

/-- What every step leaves as it is stays through all of them. -/
theorem part_andThen {step : Saving → Saving}
    (kept : ∀ s : Saving, part (step s).soundtrack = part s.soundtrack) :
    part (s.andThen step).soundtrack = part s.soundtrack := by
  unfold andThen
  cases s.outcome with
  | error e => rfl
  | ok u => exact kept s

theorem part_each {α : Type} {xs : List α} {step : α → Saving → Saving}
    (kept : ∀ x s, part (step x s).soundtrack = part s.soundtrack) :
    part (s.each xs step).soundtrack = part s.soundtrack := by
  induction xs generalizing s with
  | nil => rfl
  | cons x rest ih => rw [each_cons, ih, part_andThen part (kept x)]

end Parts

theorem moved_andThen {banks : Bank → Prop} {t : Soundtrack} {step : Saving → Saving}
    (before : Moved banks t s.soundtrack)
    (moved : ∀ s : Saving, Moved banks s.soundtrack (step s).soundtrack) :
    Moved banks t (s.andThen step).soundtrack := by
  unfold andThen
  cases s.outcome with
  | error e => exact before
  | ok u => exact before.trans (moved s)

theorem moved_each {α : Type} {banks : Bank → Prop} {xs : List α} {step : α → Saving → Saving}
    (moved : ∀ x ∈ xs, ∀ s : Saving, Moved banks s.soundtrack (step x s).soundtrack) :
    Moved banks s.soundtrack (s.each xs step).soundtrack := by
  induction xs generalizing s with
  | nil => exact .refl _ _
  | cons x rest ih =>
    rw [each_cons]
    exact (moved_andThen (.refl _ _) (moved x (List.mem_cons_self ..))).trans
      (ih fun other member => moved other (List.mem_cons_of_mem _ member))

/-- Saving a bank moves its songs, and no other. -/
theorem moved_saveSongs (bank : Bank) (s : Saving) :
    Moved (· = bank) s.soundtrack (saveSongs bank s).soundtrack := by
  have begun : Moved (· = bank) s.soundtrack (addressed bank s).soundtrack := by
    refine ⟨rfl, Placement.map_ofSongs fun _ _ => rfl, fun other apart => ?_⟩
    exact Placement.songsOf_ofSongs_of_ne apart
  have pointed : ∀ t : Saving, (t.writePointer bank).soundtrack = t.soundtrack := by
    intro t
    unfold writePointer
    cases bank.pointerBytes <;> rfl
  -- When a song cannot be placed nothing is written, but the songs in front of it have been moved.
  cases placed : (placement bank s).outcome with
  | error e =>
    rw [saveSongs_eq_of_refused placed]
    exact begun
  | ok u =>
    rw [saveSongs_eq_of_placed placed]
    refine moved_andThen (moved_andThen begun fun t => ?_) fun t => ⟨rfl, rfl, fun _ _ => rfl⟩
    rw [pointed]
    exact .refl _ _

end Saving

namespace Soundtrack

variable {s : Soundtrack} {image : Image} {e : MusicError}

/-- Of all that is written it is the banks that show in the soundtrack. -/
theorem soundtrack_writeAll (s : Soundtrack) (image : Image) :
    (s.writeAll image).soundtrack = (s.saveBanks image).soundtrack := by
  have instruments : ∀ saving : Saving,
      (if s.instrumentsModified then saving.saveInstruments else saving).soundtrack =
        saving.soundtrack := by
    intro saving
    split
    · exact saving.soundtrack_saveInstruments
    · rfl
  have samples : ∀ saving : Saving,
      (saving.each s.entries.zipIdx Saving.saveSample).soundtrack = saving.soundtrack :=
    fun _ => Saving.part_each id Saving.soundtrack_saveSample
  exact (Saving.soundtrack_andThen (samples _)).trans (Saving.soundtrack_andThen (instruments _))

/-- All that is written comes with the songs of dirty banks being moved. -/
theorem moved_writeAll (s : Soundtrack) (image : Image) :
    Moved (· ∈ s.dirtyBanks) s (s.writeAll image).soundtrack := by
  rw [soundtrack_writeAll]
  refine Saving.moved_each (s := { soundtrack := s, image }) fun bank dirty saving => ?_
  refine (Saving.moved_saveSongs bank saving).mono ?_
  rintro other rfl
  exact dirty

/-- A save that fails leaves the soundtrack as it was, or as it became while something was
written. -/
theorem moved_save_of_failed (failed : (s.save image).outcome = .error e) :
    Moved (· ∈ s.dirtyBanks) s (s.save image).soundtrack := by
  rcases refused_or_checked s image with ⟨other, -, stopped⟩ | ⟨loaded, there, checked⟩
  · rw [stopped]
    exact .refl _ _
  · have written := s.moved_writeAll image
    rw [save_eq_of_check loaded there checked] at failed ⊢
    unfold Saving.andThen at failed ⊢
    cases outcome : (s.writeAll image).outcome with
    | error other => exact written
    | ok u => simp [outcome] at failed

/-- A save that succeeds marks everything as saved. -/
theorem markSaved_of_save (ok : (s.save image).outcome = .ok ()) :
    (s.save image).soundtrack = (s.writeAll image).soundtrack.markSaved := by
  rcases refused_or_checked s image with ⟨other, -, stopped⟩ | ⟨loaded, there, checked⟩
  · simp [stopped] at ok
  · rw [save_eq_of_check loaded there checked] at ok ⊢
    rw [(Saving.andThen_ok ok).2]

end Soundtrack

/-! ### Runs -/

/-- An operation on songs, or a save that fails. A song may be changed in any way that leaves its
mark. -/
inductive EditStep : Soundtrack → Soundtrack → Prop where
  | create (s : Soundtrack) (name : String) (bank : Bank) : EditStep s (s.createSong name bank)
  | add (s : Soundtrack) (song : Song) : EditStep s (s.addSong song)
  | duplicate {s t : Soundtrack} {index : Nat} (done : s.duplicateSong index = .ok t) :
      EditStep s t
  | delete {s t : Soundtrack} {index : Nat} {song : Song}
      (done : s.deleteSong index = .ok (song, t)) : EditStep s t
  | update {s t : Soundtrack} {index : Nat} {change : Song → Song}
      (keeps : ∀ song, (change song).modified = song.modified)
      (done : s.updateSong index change = .ok t) : EditStep s t
  | failedSave {s : Soundtrack} {image : Image} {e : MusicError}
      (failed : (s.save image).outcome = .error e) : EditStep s (s.save image).soundtrack

/-- Any number of operations, one after the other. -/
inductive EditRun : Soundtrack → Soundtrack → Prop where
  | refl (s : Soundtrack) : EditRun s s
  | tail {s t u : Soundtrack} (run : EditRun s t) (step : EditStep t u) : EditRun s u

/-- A soundtrack that has just been loaded or saved. -/
inductive Settled : Soundtrack → Prop where
  | load {s : Soundtrack} {image : Image} (ok : (s.load image).outcome = .ok ()) :
      Settled (s.load image).soundtrack
  | save {s : Soundtrack} {image : Image} (ok : (s.save image).outcome = .ok ()) :
      Settled (s.save image).soundtrack

open Soundtrack

theorem EditStep.tracked {s t : Soundtrack} (step : EditStep s t) : Tracked s t := by
  cases step with
  | create name bank => exact tracked_addSong s _
  | add song => exact tracked_addSong s song
  | duplicate done =>
    obtain ⟨song, -, rfl⟩ := duplicateSong_ok done
    exact tracked_addSong s _
  | delete done => exact tracked_deleteSong done
  | update keeps done => exact tracked_updateSong keeps done
  | failedSave failed => exact (moved_save_of_failed failed).tracked

theorem EditRun.tracked {s t : Soundtrack} (run : EditRun s t) : Tracked s t := by
  induction run with
  | refl => exact .refl _
  | tail _ step ih => exact ih.trans step.tracked

/-! ### Soundtracks without changes -/

theorem dirtyBanks_eq_nil {s : Soundtrack} (untouched : ∀ bank, s.touched bank = false)
    (unmarked : ∀ song ∈ s.songs, song.modified = false) : s.dirtyBanks = [] := by
  rw [List.eq_nil_iff_forall_not_mem]
  intro bank dirty
  rw [mem_dirtyBanks, isDirty_iff] at dirty
  rcases dirty with mark | ⟨song, listed, modified, -⟩
  · simp [untouched bank] at mark
  · simp [unmarked song listed] at modified

theorem hasModifications_of_clean {s : Soundtrack} (only : s.SongsOnly)
    (clean : s.dirtyBanks = []) : s.hasModifications = false := by
  have kept : s.entries.any (·.modified) = false := by
    rw [List.any_eq_false]
    intro entry listed
    simp [only.samples entry listed]
  rw [Soundtrack.hasModifications, clean, kept, only.instruments]
  rfl

/-- Songs are loaded without marks. -/
theorem modified_of_load {s : Soundtrack} {image : Image} (there : image.isLoaded = true) :
    ∀ song ∈ (s.load image).soundtrack.songs, song.modified = false := by
  intro song listed
  obtain ⟨slot, read⟩ := slot_of_load s there listed
  rw [← read]
  exact Uploads.modified_songOrPlaceholder _ _ _ _

/-- Saving everything clears all marks. -/
theorem dirtyBanks_markSaved (s : Soundtrack) : s.markSaved.dirtyBanks = [] := by
  refine dirtyBanks_eq_nil (fun _ => rfl) fun song listed => ?_
  obtain ⟨before, -, rfl⟩ := List.mem_map.mp listed
  rfl

theorem Settled.dirtyBanks_eq_nil {s : Soundtrack} (settled : Settled s) : s.dirtyBanks = [] := by
  cases settled with
  | @load s image ok =>
    obtain ⟨there, instruments, entries, -, same⟩ := load_ok ok
    refine SnesMusic.dirtyBanks_eq_nil (fun bank => ?_) (modified_of_load there)
    rw [same]
  | @save s image ok =>
    rw [markSaved_of_save ok]
    exact dirtyBanks_markSaved _

/-- Nothing is changed without a bank being dirty: right after loading or saving no bank is, and
after any run of operations on songs and saves that fail, each bank that is not dirty has the songs
it had at the beginning, in their order. -/
theorem clean_banks_kept {start s : Soundtrack} (settled : Settled start) (run : EditRun start s) :
    start.dirtyBanks = [] ∧ ∀ bank, bank ∉ s.dirtyBanks → s.songsIn bank = start.songsIn bank :=
  ⟨settled.dirtyBanks_eq_nil, run.tracked.same⟩

/-! ### An example -/

/-- Songs are added to two banks, of which a save reaches one; the dungeon is left alone. -/
theorem encore_keeps_dungeon :
    let start := (({} : Soundtrack).load creditsImage).soundtrack
    let after := (encore.save shortImage).soundtrack
    Settled start ∧ EditRun start after ∧ after.dirtyBanks = [.credits, .overworldExpanded] ∧
      after.songsIn .dungeon = start.songsIn .dungeon := by
  intro start after
  have settled : Settled start := .load loads_creditsImage
  have run : EditRun start after :=
    .tail (.tail (.tail (.refl _) (.create _ "Encore" .credits))
      (.create _ "Afterword" .overworldExpanded)) (.failedSave encore_half_saved.1)
  have dirty : after.dirtyBanks = [.credits, .overworldExpanded] :=
    (moved_save_of_failed encore_half_saved.1).dirtyBanks_eq.trans dirtyBanks_encore
  have clean : Bank.dungeon ∉ after.dirtyBanks := by
    rw [dirty]
    decide
  exact ⟨settled, run, dirty, (clean_banks_kept settled run).2 .dungeon clean⟩

end SnesMusic
