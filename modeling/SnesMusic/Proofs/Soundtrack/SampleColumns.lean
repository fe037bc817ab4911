import Mathlib.Data.Finset.Sort
import SnesMusic.Proofs.Soundtrack.DirtyBanks
import SnesMusic.Proofs.Soundtrack.HeadedSaving

/-!
# Samples in columns

The entries of a soundtrack as three collections that are kept side by side: the samples, their
places, and the indexes of those to be saved. Loading clears all three and fills the first two one
sample at a time, edits change one collection or several, and a save goes through the indexes in
ascending order. Main statements: whatever is requested, the columns stay those of the soundtrack
(`columns_after`), and what a save checks and writes is what they say (`check_eq_columns`,
`writeAll_eq_columns`).
-/
namespace SnesMusic

open LittleEndian

/-- Samples, the places they were loaded from, and the indexes of samples to be saved. -/
@[ext] structure SampleColumns where
  samples : List Sample := []
  slots : List (Option Slot) := []
  modified : Finset Nat := ∅

namespace SampleColumns

/-! ### Changing -/

/-- Adds a sample at the end. -/
def push (c : SampleColumns) (sample : Sample) (slot : Option Slot) : SampleColumns :=
  { c with samples := c.samples ++ [sample], slots := c.slots ++ [slot] }

/-- Adds the samples of directory entries, the first of which has number `index`. -/
def read (common : Uploads) (directory index : Nat) (c : SampleColumns) :
    List (UInt16 × UInt16) → SampleColumns
  | [] => c
  | (start, loop) :: rest =>
    let entry := loadSample common directory index start loop
    (c.push entry.sample entry.slot).read common directory (index + 1) rest

/-- Loads the samples of an image. They are cleared first, and stay so when the instruments or the
sample directory cannot be read. -/
def load (c : SampleColumns) (image : Image) : SampleColumns :=
  if !image.isLoaded then c
  else
    let common := Uploads.ofImage image .common
    match loadInstruments common, common.offset? sampleDirectoryAddress,
      common.require sampleDirectoryAddress with
    | .ok _, some directory, .ok data =>
      read common directory 0 {} ((directoryEntries data).take maxSamples)
    | _, _, _ => {}

/-- Samples that are restored have no places. -/
def restore (samples : List Sample) : SampleColumns :=
  { samples, slots := List.replicate samples.length none }

/-- Changes a sample, if there is one with the index. -/
def change (c : SampleColumns) (index : Nat) (f : Sample → Sample) : SampleColumns :=
  match c.samples[index]? with
  | none => c
  | some sample => { c with
      samples := c.samples.set index (f sample)
      modified := insert index c.modified }

/-- Adds a sample that was not loaded. -/
def add (c : SampleColumns) (sample : Sample) : SampleColumns :=
  let pushed := c.push sample none
  { pushed with modified := insert (pushed.samples.length - 1) pushed.modified }

/-- The samples after an edit, which other edits than those of samples leave alone. -/
def edit (c : SampleColumns) : Edit → SampleColumns
  | .changeSample index f => c.change index f
  | .importSample name file =>
    match Wave.ofFile file with
    | .error _ => c
    | .ok wave => c.add (Sample.ofWave name wave)
  | .replaceSample index file =>
    match Wave.ofFile file with
    | .error _ => c
    | .ok wave => c.change index fun sample => Sample.ofWave sample.name wave
  | .restore text =>
    match Json.Value.ofText? text >>= State.ofValue? with
    | none => c
    | some state => restore state.samples
  | _ => c

/-! ### Saving -/

/-- The indexes of samples to be saved, in ascending order. -/
def pending (c : SampleColumns) : List Nat := c.modified.sort (· ≤ ·)

/-- A sample and its place, if it has one. -/
def placed? (c : SampleColumns) (index : Nat) : Option (Sample × Slot) :=
  match c.samples[index]?, c.slots[index]? with
  | some sample, some (some slot) => some (sample, slot)
  | _, _ => none

def checkAt (c : SampleColumns) (index : Nat) : Except MusicError Unit :=
  match c.placed? index with
  | none => .ok ()
  | some (sample, slot) =>
    if slot.capacity < sample.encoded.length then
      .error (.overflow .sampleSlot sample.encoded.length slot.capacity)
    else .ok ()

/-- Checks that the samples to be saved fit their places. -/
def check (c : SampleColumns) : Except MusicError Unit := c.pending.forM c.checkAt

/-- Writes a sample and its loop address, or tells that it has no place. -/
def saveAt (c : SampleColumns) (index : Nat) (s : Saving) : Saving :=
  match c.placed? index with
  | none => s.tell (.unplacedSample index)
  | some (sample, slot) =>
    (s.write slot.offset sample.encoded).andThen
      (·.write (slot.directory + 2) (bytes (Saving.loopAddress slot sample)))

/-- Writes the samples to be saved. -/
def save (c : SampleColumns) (s : Saving) : Saving := s.each c.pending c.saveAt

/-- The samples when everything has been saved. -/
def saved (c : SampleColumns) : SampleColumns := { c with modified := ∅ }

end SampleColumns

/-! ### The columns of a soundtrack -/

/-- Whether the entry with an index is to be saved. -/
def isModifiedAt (entries : List SampleEntry) (index : Nat) : Bool :=
  entries[index]?.any (·.modified)

/-- The indexes of entries to be saved, in ascending order. -/
def modifiedIndexes (entries : List SampleEntry) : List Nat :=
  (List.range entries.length).filter (isModifiedAt entries)

/-- Entries, column by column. -/
def columnsOf (entries : List SampleEntry) : SampleColumns :=
  { samples := entries.map (·.sample)
    slots := entries.map (·.slot)
    modified := (modifiedIndexes entries).toFinset }

def Soundtrack.columns (s : Soundtrack) : SampleColumns := columnsOf s.entries

section Columns

variable {entries : List SampleEntry} {entry : SampleEntry} {index : Nat}

theorem mem_modifiedIndexes : index ∈ modifiedIndexes entries ↔
    ∃ entry, entries[index]? = some entry ∧ entry.modified = true := by
  rw [modifiedIndexes, List.mem_filter, List.mem_range, isModifiedAt, Option.any_eq_true,
    and_iff_right_iff_imp]
  rintro ⟨entry, stands, -⟩
  exact (List.getElem?_eq_some_iff.mp stands).1

theorem mem_modified_columnsOf : index ∈ (columnsOf entries).modified ↔
    ∃ entry, entries[index]? = some entry ∧ entry.modified = true :=
  List.mem_toFinset.trans mem_modifiedIndexes

theorem pending_columnsOf (entries : List SampleEntry) :
    (columnsOf entries).pending = modifiedIndexes entries := by
  have distinct : (modifiedIndexes entries).Nodup := List.nodup_range.filter _
  have ascending : (modifiedIndexes entries).Pairwise (· ≤ ·) :=
    List.pairwise_le_range.filter _
  exact (List.toFinset_sort (· ≤ ·) distinct).mpr ascending

theorem mem_modified_columnsOf_append : index ∈ (columnsOf (entries ++ [entry])).modified ↔
    index ∈ (columnsOf entries).modified ∨ index = entries.length ∧ entry.modified = true := by
  rw [mem_modified_columnsOf, mem_modified_columnsOf]
  rcases Nat.lt_trichotomy index entries.length with before | rfl | behind
  · rw [List.getElem?_append_left before]
    simp [Nat.ne_of_lt before]
  · simp
  · rw [List.getElem?_eq_none (by rw [List.length_append, List.length_singleton]; omega),
      List.getElem?_eq_none (Nat.le_of_lt behind)]
    simp [Nat.ne_of_gt behind]

/-- An entry that was loaded is a sample and its place. -/
theorem columnsOf_append_of_unmodified (unmodified : entry.modified = false) :
    columnsOf (entries ++ [entry]) = (columnsOf entries).push entry.sample entry.slot := by
  refine SampleColumns.ext List.map_append List.map_append (Finset.ext fun index => ?_)
  rw [mem_modified_columnsOf_append, unmodified]
  simp [SampleColumns.push]

/-- A sample that was not loaded is added to all three collections. -/
theorem columnsOf_append_added (sample : Sample) :
    columnsOf (entries ++ [{ sample, modified := true }]) = (columnsOf entries).add sample := by
  refine SampleColumns.ext List.map_append List.map_append (Finset.ext fun index => ?_)
  rw [mem_modified_columnsOf_append]
  simp [SampleColumns.add, SampleColumns.push, columnsOf, or_comm]

/-- A change of an entry that keeps its place. -/
theorem columnsOf_set (stands : entries[index]? = some entry) (f : Sample → Sample) :
    columnsOf (entries.set index { entry with sample := f entry.sample, modified := true }) =
      (columnsOf entries).change index f := by
  obtain ⟨inside, here⟩ := List.getElem?_eq_some_iff.mp stands
  have sample : (columnsOf entries).samples[index]? = some entry.sample := by
    rw [columnsOf, List.getElem?_map, stands]
    rfl
  have slot : (entries.map (·.slot)).set index entry.slot = entries.map (·.slot) := by
    rw [← List.map_set, ← here, List.set_getElem_self]
  rw [SampleColumns.change, sample]
  refine SampleColumns.ext List.map_set (List.map_set.trans slot) (Finset.ext fun other => ?_)
  rw [mem_modified_columnsOf, Finset.mem_insert, mem_modified_columnsOf, List.getElem?_set]
  by_cases same : index = other
  · subst same
    simp [inside]
  · simp [same, Ne.symm same]

theorem modified_columnsOf_of_unmodified
    (unmodified : ∀ entry ∈ entries, entry.modified = false) :
    (columnsOf entries).modified = ∅ := by
  rw [Finset.eq_empty_iff_forall_notMem]
  intro index listed
  obtain ⟨entry, stands, modified⟩ := mem_modified_columnsOf.mp listed
  rw [unmodified entry (List.mem_of_getElem? stands)] at modified
  contradiction

/-! ### Loading and editing -/

/-- Samples are read into the columns as they are read into entries. -/
theorem read_columnsOf (common : Uploads) (directory : Nat) (words : List (UInt16 × UInt16))
    (entries : List SampleEntry) :
    SampleColumns.read common directory entries.length (columnsOf entries) words =
      columnsOf (entries ++ (words.zipIdx entries.length).map fun ((start, loop), index) =>
        loadSample common directory index start loop) := by
  induction words generalizing entries with
  | nil => simp [SampleColumns.read]
  | cons word rest ih =>
    let entry := loadSample common directory entries.length word.1 word.2
    have pushed : columnsOf (entries ++ [entry]) = _ :=
      columnsOf_append_of_unmodified (Soundtrack.modified_loadSample ..)
    have next := ih (entries ++ [entry])
    rw [List.length_append, List.length_singleton, pushed, List.append_assoc] at next
    exact next

end Columns

namespace Soundtrack

variable (s : Soundtrack)

theorem columns_load (image : Image) :
    (s.load image).soundtrack.columns = s.columns.load image := by
  unfold load SampleColumns.load
  cases image.isLoaded with
  | false => rfl
  | true =>
    simp only [Bool.not_true, Bool.false_eq_true, if_false]
    cases loadInstruments (Uploads.ofImage image .common) with
    | error e => rfl
    | ok instruments =>
      simp only [loadSamples]
      cases (Uploads.ofImage image .common).offset? sampleDirectoryAddress with
      | none => rfl
      | some directory =>
        cases (Uploads.ofImage image .common).require sampleDirectoryAddress with
        | error e => rfl
        | ok data =>
          exact (read_columnsOf (Uploads.ofImage image .common) directory
            ((directoryEntries data).take maxSamples) []).symm

theorem columns_updateSample (index : Nat) (f : Sample → Sample) :
    ((s.updateSample index f).toOption.getD s).columns = s.columns.change index f := by
  cases stands : s.entries[index]? with
  | none =>
    have absent : s.columns.samples[index]? = none := by
      rw [columns, columnsOf, List.getElem?_map, stands]
      rfl
    rw [updateSample, entry?, stands, SampleColumns.change, absent]
    rfl
  | some entry =>
    rw [updateSample, entry?, stands]
    exact columnsOf_set stands f

theorem entries_updateSong (index : Nat) (f : Song → Song) :
    ((s.updateSong index f).toOption.getD s).entries = s.entries := by
  rw [updateSong]
  cases s.song? index <;> rfl

theorem columns_importSample (name : String) (file : List UInt8) :
    ((s.importSample name file).outcome.toOption.getD s).columns =
      s.columns.edit (.importSample name file) := by
  rw [SampleColumns.edit, importSample, Report.outcome_bind, Report.outcome_ofExcept]
  cases Wave.ofFile file with
  | error e => rfl
  | ok wave => exact columnsOf_append_added (Sample.ofWave name wave)

theorem columns_replaceSample (index : Nat) (file : List UInt8) :
    ((s.replaceSample index file).outcome.toOption.getD s).columns =
      s.columns.edit (.replaceSample index file) := by
  simp only [SampleColumns.edit, replaceSample, Report.outcome_bind, Report.outcome_ofExcept]
  cases Wave.ofFile file with
  | error e => rfl
  | ok wave =>
    let change (sample : Sample) := Sample.ofWave sample.name wave
    have same : (s.sample? index >>= fun _ => s.updateSample index change) =
        s.updateSample index change := by
      rw [sample?, updateSample]
      cases s.entry? index <;> rfl
    have changed := s.columns_updateSample index change
    rw [← same] at changed
    exact changed

theorem columns_restore (state : State) :
    (s.restore state).columns = SampleColumns.restore state.samples := by
  have unmodified : ∀ entry ∈ (s.restore state).entries, entry.modified = false := by
    intro entry listed
    obtain ⟨sample, -, rfl⟩ := List.mem_map.mp listed
    rfl
  refine SampleColumns.ext ?_ ?_ (modified_columnsOf_of_unmodified unmodified)
  · exact List.map_map.trans (List.map_id' state.samples)
  · exact List.map_map.trans List.map_const

theorem columns_edit (edit : Edit) :
    ((edit.apply s).toOption.getD s).columns = s.columns.edit edit := by
  cases edit with
  | createSong name bank => rfl
  | addSong song => rfl
  | duplicateSong index =>
    rw [Edit.apply, duplicateSong]
    cases s.song? index <;> rfl
  | deleteSong index =>
    rw [Edit.apply, deleteSong]
    cases s.song? index with
    | error e => rfl
    | ok song => cases isVanilla index <;> rfl
  | changeSong index change => exact congrArg columnsOf (s.entries_updateSong index change)
  | placeSong song replace =>
    rw [Edit.apply, placeSong]
    cases if replace then s.indexOfName? song.name else none with
    | none => rfl
    | some index =>
      have kept := s.entries_updateSong index fun old =>
        { song with bank := old.bank, address := old.address, modified := true }
      simp only [replaceSong]
      cases updated : s.updateSong index _ with
      | error e => rfl
      | ok t =>
        rw [updated] at kept
        exact congrArg columnsOf kept
  | createInstrument name => rfl
  | changeInstrument index change =>
    rw [Edit.apply, updateInstrument]
    cases s.instrument? index <;> rfl
  | changeSample index change => exact s.columns_updateSample index change
  | importSample name file => exact s.columns_importSample name file
  | replaceSample index file => exact s.columns_replaceSample index file
  | restore text =>
    rw [Edit.apply, loadJson, SampleColumns.edit]
    cases Json.Value.ofText? text >>= State.ofValue? with
    | none => rfl
    | some state => exact s.columns_restore state

end Soundtrack

/-! ### Saving, column by column -/

/-- The entries to be saved with their indexes. -/
def modifiedEntries (entries : List SampleEntry) : List (SampleEntry × Nat) :=
  entries.zipIdx.filter (·.1.modified)

theorem modifiedIndexes_eq (entries : List SampleEntry) :
    modifiedIndexes entries = (modifiedEntries entries).map (·.2) := by
  have all : List.range entries.length = entries.zipIdx.map (·.2) := by
    rw [List.zipIdx_map_snd, List.range_eq_range']
  rw [modifiedIndexes, all, List.filter_map]
  refine congrArg (List.map _) (List.filter_congr ?_)
  rintro ⟨entry, index⟩ listed
  have stands : entries[index]? = some entry := List.mem_zipIdx_iff_getElem?.mp listed
  simp [isModifiedAt, stands]

theorem mem_modifiedEntries {entries : List SampleEntry} {entry : SampleEntry} {index : Nat} :
    (entry, index) ∈ modifiedEntries entries ↔
      entries[index]? = some entry ∧ entry.modified = true := by
  rw [modifiedEntries, List.mem_filter, List.mem_zipIdx_iff_getElem?]

theorem placed?_columnsOf {entries : List SampleEntry} {entry : SampleEntry} {index : Nat}
    (stands : entries[index]? = some entry) :
    (columnsOf entries).placed? index = entry.slot.map (entry.sample, ·) := by
  simp only [SampleColumns.placed?, columnsOf, List.getElem?_map, stands, Option.map_some]
  cases entry.slot <;> rfl

/-- A check that some elements always pass can be left out for them. -/
theorem forM_filter {α : Type} {p : α → Bool} {f : α → Except MusicError Unit}
    (passed : ∀ x, p x = false → f x = .ok ()) (xs : List α) : (xs.filter p).forM f = xs.forM f := by
  induction xs with
  | nil => rfl
  | cons x rest ih =>
    cases kind : p x with
    | true => rw [List.filter_cons_of_pos kind, List.forM, List.forM, ih]
    | false =>
      rw [List.filter_cons_of_neg (by simp [kind]), ih, List.forM, passed x kind]
      rfl

theorem forM_congr {α : Type} {f g : α → Except MusicError Unit} {xs : List α}
    (same : ∀ x ∈ xs, f x = g x) : xs.forM f = xs.forM g := by
  induction xs with
  | nil => rfl
  | cons x rest ih =>
    rw [List.forM, List.forM, same x List.mem_cons_self,
      ih fun other member => same other (List.mem_cons_of_mem _ member)]

theorem forM_map {α β : Type} {f : α → Except MusicError Unit} (g : β → α) (ys : List β) :
    (ys.map g).forM f = ys.forM fun y => f (g y) := by
  rw [List.forM_eq_forM, List.forM_map]
  rfl

/-- Samples are checked in the columns as they are in the entries. -/
theorem forM_checkSample_eq_columns (entries : List SampleEntry) :
    entries.forM Soundtrack.checkSample = (columnsOf entries).check := by
  have unmodified : ∀ entry : SampleEntry × Nat, entry.1.modified = false →
      Soundtrack.checkSample entry.1 = .ok () := by
    rintro ⟨entry, index⟩ unmodified
    rw [Soundtrack.checkSample, unmodified]
  have numbered : entries.forM Soundtrack.checkSample =
      entries.zipIdx.forM fun entry => Soundtrack.checkSample entry.1 := by
    have listed := forM_map (f := Soundtrack.checkSample) Prod.fst entries.zipIdx
    rwa [List.zipIdx_map_fst] at listed
  rw [SampleColumns.check, pending_columnsOf, modifiedIndexes_eq, forM_map, numbered,
    ← forM_filter unmodified]
  refine forM_congr ?_
  rintro ⟨entry, index⟩ listed
  obtain ⟨stands, modified⟩ := mem_modifiedEntries.mp listed
  rw [Soundtrack.checkSample, SampleColumns.checkAt, placed?_columnsOf stands, modified]
  cases entry.slot <;> rfl

namespace Saving

variable {α : Type} {step step' : α → Saving → Saving} {xs : List α}

/-- Steps that do nothing can be left out. -/
theorem each_filter {p : α → Bool} (skipped : ∀ x s, p x = false → step x s = s) (s : Saving) :
    s.each (xs.filter p) step = s.each xs step := by
  induction xs generalizing s with
  | nil => rfl
  | cons x rest ih =>
    cases kind : p x with
    | true => rw [List.filter_cons_of_pos kind, each_cons, each_cons, ih]
    | false =>
      have idle : s.andThen (step x) = s := by
        rw [andThen, skipped x s kind]
        cases s.outcome <;> rfl
      rw [List.filter_cons_of_neg (by simp [kind]), each_cons, idle, ih]

theorem each_congr (same : ∀ x ∈ xs, step x = step' x) (s : Saving) :
    s.each xs step = s.each xs step' := by
  induction xs generalizing s with
  | nil => rfl
  | cons x rest ih =>
    rw [each_cons, each_cons, same x List.mem_cons_self,
      ih fun other member => same other (List.mem_cons_of_mem _ member)]

theorem each_map {β : Type} (f : β → α) (ys : List β) (s : Saving) :
    s.each (ys.map f) step = s.each ys fun y => step (f y) :=
  List.foldl_map

theorem saveSample_of_unmodified (entry : SampleEntry × Nat) (s : Saving)
    (unmodified : entry.1.modified = false) : saveSample entry s = s := by
  rw [saveSample, unmodified]
  rfl

/-- Samples are written from the columns as they are from the entries. -/
theorem each_saveSample_eq_columns (entries : List SampleEntry) (s : Saving) :
    s.each entries.zipIdx saveSample = (columnsOf entries).save s := by
  rw [SampleColumns.save, pending_columnsOf, modifiedIndexes_eq, each_map,
    ← each_filter saveSample_of_unmodified]
  refine each_congr ?_ s
  rintro ⟨entry, index⟩ listed
  obtain ⟨stands, modified⟩ := mem_modifiedEntries.mp listed
  funext saving
  rw [saveSample, SampleColumns.saveAt, placed?_columnsOf stands, modified]
  cases entry.slot <;> rfl

theorem soundtrack_each_saveSample (entries : List (SampleEntry × Nat)) (s : Saving) :
    (s.each entries saveSample).soundtrack = s.soundtrack := by
  induction entries generalizing s with
  | nil => rfl
  | cons entry rest ih =>
    rw [each_cons, ih, soundtrack_andThen (soundtrack_saveSample entry s)]

end Saving

namespace Soundtrack

/-- What is written before the samples: the banks, and the instrument table where it is modified. -/
def writeMusic (s : Soundtrack) (image : Image) : Saving :=
  (s.saveBanks image).andThen fun saving =>
    if s.instrumentsModified then saving.saveInstruments else saving

variable (s : Soundtrack) (image : Image)

/-- Checks look at the songs of dirty banks and at the columns. -/
theorem check_eq_columns :
    s.check = (s.dirtyBanks.forM s.checkBank >>= fun _ => s.columns.check) := by
  rw [check, forM_checkSample_eq_columns]
  rfl

/-- The samples that are written are those of the columns. -/
theorem writeAll_eq_columns : s.writeAll image = (s.writeMusic image).andThen s.columns.save := by
  simp only [writeAll, Saving.each_saveSample_eq_columns]
  rfl

theorem entries_writeAll : (s.writeAll image).soundtrack.entries = s.entries := by
  have banks := Saving.kept_each_saveSongs s.dirtyBanks { soundtrack := s, image }
  refine (Saving.kept_andThen (Saving.kept_andThen banks fun saving => ?_) fun saving => ?_).entries
  · split
    · rw [saving.soundtrack_saveInstruments]
      exact ⟨rfl, rfl, rfl, rfl⟩
    · exact ⟨rfl, rfl, rfl, rfl⟩
  · rw [Saving.soundtrack_each_saveSample]
    exact ⟨rfl, rfl, rfl, rfl⟩

theorem columns_markSaved : s.markSaved.columns = s.columns.saved := by
  have unmodified : ∀ entry ∈ s.markSaved.entries, entry.modified = false := by
    intro entry listed
    obtain ⟨other, -, rfl⟩ := List.mem_map.mp listed
    rfl
  exact SampleColumns.ext List.map_map List.map_map (modified_columnsOf_of_unmodified unmodified)

/-- A save clears the indexes when it succeeds, and changes nothing else. -/
theorem columns_save : (s.save image).soundtrack.columns =
    match (s.save image).outcome with
    | .ok () => s.columns.saved
    | .error _ => s.columns := by
  cases outcome : (s.save image).outcome with
  | ok u =>
    rw [markSaved_of_save outcome, columns_markSaved, columns, entries_writeAll]
    rfl
  | error e =>
    rcases refused_or_checked s image with ⟨other, -, stopped⟩ | ⟨loaded, there, checked⟩
    · rw [stopped]
    · rw [save_eq_of_check loaded there checked] at outcome ⊢
      unfold Saving.andThen at outcome ⊢
      cases written : (s.writeAll image).outcome with
      | error other => exact congrArg columnsOf (s.entries_writeAll image)
      | ok u => simp [written] at outcome

end Soundtrack

/-! ### Runs -/

/-- What a soundtrack is asked to do with an image or a text. -/
inductive Request where
  | load (image : Image)
  | edit (edit : Edit)
  | save (image : Image)

namespace Soundtrack

/-- The soundtrack after a request, which may fail. -/
def after (s : Soundtrack) : Request → Soundtrack
  | .load image => (s.load image).soundtrack
  | .edit edit => (edit.apply s).toOption.getD s
  | .save image => (s.save image).soundtrack

end Soundtrack

/-- The columns after a request to the soundtrack `s`. -/
def SampleColumns.after (c : SampleColumns) (s : Soundtrack) : Request → SampleColumns
  | .load image => c.load image
  | .edit edit => c.edit edit
  | .save image =>
    match (s.save image).outcome with
    | .ok () => c.saved
    | .error _ => c

/-- Columns that are kept beside a soundtrack stay its columns. -/
theorem Soundtrack.columns_after (s : Soundtrack) (request : Request) :
    (s.after request).columns = s.columns.after s request := by
  cases request with
  | load image => exact s.columns_load image
  | edit edit => exact s.columns_edit edit
  | save image => exact s.columns_save image

end SnesMusic
