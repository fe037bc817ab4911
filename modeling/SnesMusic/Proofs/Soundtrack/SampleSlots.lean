import SnesMusic.Proofs.Ranges.Loading
import SnesMusic.Proofs.Soundtrack.SampleColumns

/-!
# Samples in their places

The place of a sample is recorded when it is loaded and never changed after that, while its data is
replaced freely; what keeps the data in its place is a check that is made before anything is
written. Main statement: after any run of loads, edits and saves, failed ones included, every place
is one that was recorded in the image loaded last, and lies inside it; and a save writes samples
only to the places of modified ones and to the loop addresses of these
(`Session.samples_in_places`).
-/
namespace SnesMusic

open LittleEndian

/-! ### Places in an image -/

/-- The place and its directory entry lie inside the image. -/
structure Slot.Inside (slot : Slot) (image : Image) : Prop where
  directory : slot.directory + 4 ≤ image.size
  data : slot.offset + slot.capacity ≤ image.size

/-- The place that is recorded for a sample when the image is loaded. -/
def Image.Places (image : Image) (index : Nat) (slot : Slot) : Prop :=
  ∃ entries entry, loadSamples (Uploads.ofImage image .common) = .ok entries ∧
    entries[index]? = some entry ∧ entry.slot = some slot

section Places

variable {image : Image} {slot : Slot}

/-- An address with an offset is uploaded. -/
theorem Uploads.exists_from?_of_offset? {u : Uploads} {address : UInt16} {offset : Nat}
    (place : u.offset? address = some offset) : ∃ data, u.from? address = some data := by
  rw [← Option.ne_none_iff_exists']
  intro missing
  have nowhere : u.blocks.find? (·.from? address |>.isSome) = none := by
    rw [List.find?_eq_none]
    intro b listed
    have without := List.findSome?_eq_none_iff.mp missing b listed
    simp [without]
  rw [offset?, nowhere] at place
  contradiction

theorem length_directoryEntries (data : List UInt8) :
    (directoryEntries data).length * 4 ≤ data.length := by
  induction data using directoryEntries.induct with
  | case1 s₀ s₁ l₀ l₁ rest ih =>
    rw [directoryEntries, List.length_cons]
    simp only [List.length_cons]
    omega
  | case2 data short => rw [directoryEntries.eq_2 data short, List.length_nil]; omega

theorem length_encoded_sampleOf_le (name : String) (start loop : UInt16) (data : List UInt8) :
    (sampleOf name start loop data).encoded.length ≤ data.length :=
  List.length_take_le' ..

/-- The place of a sample whose directory entry lies in the image. -/
theorem inside_of_loadSample {directory index : Nat} {start loop : UInt16}
    (placed : (loadSample (Uploads.ofImage image .common) directory index start loop).slot =
      some slot) (listed : directory + (index + 1) * 4 ≤ image.size) : slot.Inside image := by
  unfold loadSample at placed
  by_cases absent : start = 0
  · simp [absent] at placed
  · simp only [if_neg absent] at placed
    cases place : (Uploads.ofImage image .common).offset? start with
    | none => simp [place] at placed
    | some offset =>
      obtain ⟨data, found⟩ := Uploads.exists_from?_of_offset? place
      have required : (Uploads.ofImage image .common).require start = .ok data := by
        rw [Uploads.require, found]
      have behind := Trapping.offset_add_length_le place required
      simp only [place, found, Option.getD_some, Option.some.injEq] at placed
      have short := length_encoded_sampleOf_le ("Sample " ++ Text.hexUpper 2 index) start loop data
      rw [← placed]
      exact ⟨by dsimp only; omega, by dsimp only; omega⟩

/-- Recorded places lie in the image. -/
theorem Image.Places.inside {index : Nat} (recorded : image.Places index slot) :
    slot.Inside image := by
  obtain ⟨entries, entry, loaded, stands, placed⟩ := recorded
  unfold loadSamples at loaded
  cases place : (Uploads.ofImage image .common).offset? sampleDirectoryAddress with
  | none => simp [place] at loaded
  | some directory =>
    cases required : (Uploads.ofImage image .common).require sampleDirectoryAddress with
    | error e => simp [place, required, bind, Except.bind] at loaded
    | ok data =>
      simp only [place, required, bind, Except.bind, pure, Except.pure, Except.ok.injEq] at loaded
      subst loaded
      have inside := Trapping.offset_add_length_le place required
      have few := length_directoryEntries data
      rw [List.getElem?_map, Option.map_eq_some_iff] at stands
      obtain ⟨⟨words, number⟩, listed, rfl⟩ := stands
      have member := List.mem_zipIdx_iff_getElem?.mp (List.mem_of_getElem? listed)
      obtain ⟨below, -⟩ := List.getElem?_eq_some_iff.mp member
      dsimp only at below
      rw [List.length_take] at below
      exact inside_of_loadSample placed (by omega)

end Places

/-! ### Writing -/

namespace Saving

variable {s : Saving} {region : Nat → Prop}

theorem frame_andThen {step : Saving → Saving}
    (framed : ∀ s, Image.Frame (step s).image s.image region) :
    Image.Frame (s.andThen step).image s.image region := by
  unfold andThen
  cases s.outcome with
  | error e => exact .refl _ _
  | ok u => exact framed s

theorem frame_each {α : Type} {xs : List α} {step : α → Saving → Saving}
    (framed : ∀ x ∈ xs, ∀ s, Image.Frame (step x s).image s.image region) (s : Saving) :
    Image.Frame (s.each xs step).image s.image region := by
  induction xs generalizing s with
  | nil => exact .refl _ _
  | cons x rest ih =>
    rw [each_cons]
    exact (ih (fun other member => framed other (List.mem_cons_of_mem _ member)) _).trans
      (frame_andThen (framed x List.mem_cons_self))

end Saving

namespace SampleColumns

variable {c : SampleColumns}

/-- The bytes of the places of samples to be saved, and of the loop addresses of these. -/
def Region (c : SampleColumns) (i : Nat) : Prop :=
  ∃ index ∈ c.modified, ∃ slot, c.slots[index]? = some (some slot) ∧
    (slot.offset ≤ i ∧ i < slot.offset + slot.capacity ∨
      slot.directory + 2 ≤ i ∧ i < slot.directory + 4)

theorem mem_pending {index : Nat} : index ∈ c.pending ↔ index ∈ c.modified :=
  Finset.mem_sort _

/-- With one sample to be saved, its place is all there is to write to. -/
theorem region_iff_of_single {index : Nat} {slot : Slot} (single : c.modified = {index})
    (stands : c.slots[index]? = some (some slot)) {i : Nat} :
    c.Region i ↔ slot.offset ≤ i ∧ i < slot.offset + slot.capacity ∨
      slot.directory + 2 ≤ i ∧ i < slot.directory + 4 := by
  simp [Region, single, stands]

theorem slot_of_placed? {index : Nat} {sample : Sample} {slot : Slot}
    (placed : c.placed? index = some (sample, slot)) : c.slots[index]? = some (some slot) := by
  unfold placed? at placed
  split at placed
  · rename_i there
    simp only [Option.some.injEq, Prod.mk.injEq] at placed
    rw [there, placed.2]
  · contradiction

/-- Saving a sample that fits its place writes there and to its loop address. -/
theorem frame_saveAt {index : Nat} (modified : index ∈ c.modified)
    (fits : c.checkAt index = .ok ()) (s : Saving) :
    Image.Frame (c.saveAt index s).image s.image c.Region := by
  unfold checkAt at fits
  unfold saveAt
  cases placed : c.placed? index with
  | none => exact .refl _ _
  | some found =>
    obtain ⟨sample, slot⟩ := found
    have stands := slot_of_placed? placed
    have short : sample.encoded.length ≤ slot.capacity := by
      by_contra long
      simp [placed, Nat.lt_of_not_le long] at fits
    have data : Image.Frame (s.write slot.offset sample.encoded).image s.image c.Region := by
      refine (Image.frame_tryWrite s.image slot.offset sample.encoded).mono ?_
      rintro i ⟨low, high⟩
      exact ⟨index, modified, slot, stands, .inl ⟨low, by omega⟩⟩
    have loop : ∀ (word : UInt16) (s : Saving),
        Image.Frame (s.write (slot.directory + 2) (bytes word)).image s.image c.Region := by
      intro word s
      refine (Image.frame_tryWrite s.image (slot.directory + 2) (bytes word)).mono ?_
      rintro i ⟨low, high⟩
      rw [length_bytes] at high
      exact ⟨index, modified, slot, stands, .inr ⟨low, by omega⟩⟩
    exact (Saving.frame_andThen (loop _)).trans data

/-- Samples that have been checked are written to their places. -/
theorem frame_save (checked : c.check = .ok ()) (s : Saving) :
    Image.Frame (c.save s).image s.image c.Region := by
  refine Saving.frame_each ?_ s
  intro index listed
  exact frame_saveAt (mem_pending.mp listed) (forM_ok checked index listed)

end SampleColumns

/-- A save is refused, or writes samples to places only. -/
theorem Soundtrack.frame_save_samples (s : Soundtrack) (image : Image) :
    (s.save image).image = image ∨
      (s.save image).image = ((s.writeMusic image).andThen s.columns.save).image ∧
        Image.Frame (s.save image).image (s.writeMusic image).image s.columns.Region := by
  rcases s.save_cases image with refused | ⟨loaded, there, checked⟩
  · exact .inl refused
  · have written := (save_of_check loaded there checked).1
    have samples : s.columns.check = .ok () := by
      rw [check_eq_columns] at checked
      cases banks : s.dirtyBanks.forM s.checkBank with
      | error e => simp [banks, bind, Except.bind] at checked
      | ok u =>
        rw [banks] at checked
        exact checked
    rw [writeAll_eq_columns] at written
    rw [written]
    exact .inr ⟨rfl, Saving.frame_andThen (SampleColumns.frame_save samples)⟩

/-! ### Sessions -/

/-- A soundtrack with the columns that are kept beside it, and the image that was loaded last, be it
successfully or not. -/
structure Session where
  soundtrack : Soundtrack
  columns : SampleColumns := {}
  origin : Option Image := none

namespace Session

/-- A session begins without music. -/
def start (config : Config) : Session := { soundtrack := .new config }

/-- The image that was loaded last after a request. -/
def originAfter (origin : Option Image) : Request → Option Image
  | .load image => if image.isLoaded then some image else origin
  | _ => origin

def after (t : Session) (request : Request) : Session :=
  { soundtrack := t.soundtrack.after request
    columns := t.columns.after t.soundtrack request
    origin := originAfter t.origin request }

/-- A session after requests in order, any of which may have failed. -/
def run (config : Config) (requests : List Request) : Session :=
  requests.foldl after (start config)

/-- The columns are those of the soundtrack, and places are the recorded ones. -/
structure Sound (t : Session) : Prop where
  columns : t.columns = t.soundtrack.columns
  recorded : ∀ index slot, t.columns.slots[index]? = some (some slot) →
    ∃ image, t.origin = some image ∧ image.Places index slot

theorem sound_start (config : Config) : (start config).Sound where
  columns := rfl
  recorded index slot stands := by simp [start] at stands

/-- Edits record no places. -/
theorem slot_of_edit {c : SampleColumns} {edit : Edit} {index : Nat} {slot : Slot}
    (stands : (c.edit edit).slots[index]? = some (some slot)) :
    c.slots[index]? = some (some slot) := by
  have changed : ∀ place f, (c.change place f).slots = c.slots := by
    intro place f
    unfold SampleColumns.change
    split <;> rfl
  cases edit with
  | changeSample place f => exact changed place f ▸ stands
  | importSample name file =>
    simp only [SampleColumns.edit] at stands
    cases read : Wave.ofFile file with
    | error e => simpa only [read] using stands
    | ok wave =>
      simp only [read, SampleColumns.add, SampleColumns.push, List.getElem?_append] at stands
      split at stands
      · exact stands
      · obtain ⟨inside, none⟩ := List.getElem?_eq_some_iff.mp stands
        simp at none
  | replaceSample place file =>
    simp only [SampleColumns.edit] at stands
    cases read : Wave.ofFile file with
    | error e => simpa only [read] using stands
    | ok wave =>
      simp only [read, changed] at stands
      exact stands
  | restore text =>
    simp only [SampleColumns.edit] at stands
    cases read : Json.Value.ofText? text >>= State.ofValue? with
    | none => simpa only [read] using stands
    | some state =>
      have none := List.eq_of_mem_replicate (List.mem_of_getElem? (read ▸ stands))
      contradiction
  | _ => exact stands

/-- The places after loading are recorded ones. -/
theorem places_of_load {s : Soundtrack} {image : Image} (there : image.isLoaded = true)
    {index : Nat} {slot : Slot}
    (stands : (s.load image).soundtrack.columns.slots[index]? = some (some slot)) :
    image.Places index slot := by
  have entries : (s.load image).soundtrack.entries = [] ∨
      loadSamples (Uploads.ofImage image .common) = .ok (s.load image).soundtrack.entries := by
    unfold Soundtrack.load
    simp only [there, Bool.not_true, Bool.false_eq_true, if_false]
    cases loadInstruments (Uploads.ofImage image .common) with
    | error e => exact .inl rfl
    | ok instruments =>
      cases loaded : loadSamples (Uploads.ofImage image .common) with
      | error e => exact .inl rfl
      | ok entries => exact .inr rfl
  rw [Soundtrack.columns, columnsOf, List.getElem?_map, Option.map_eq_some_iff] at stands
  obtain ⟨entry, listed, placed⟩ := stands
  rcases entries with empty | loaded
  · simp [empty] at listed
  · exact ⟨_, entry, loaded, listed, placed⟩

theorem Sound.after {t : Session} (sound : t.Sound) (request : Request) :
    (t.after request).Sound := by
  have columns : (t.after request).columns = (t.after request).soundtrack.columns := by
    show t.columns.after t.soundtrack request = (t.soundtrack.after request).columns
    rw [Soundtrack.columns_after, sound.columns]
  refine ⟨columns, fun index slot stands => ?_⟩
  cases request with
  | load image =>
    cases there : image.isLoaded with
    | true =>
      rw [columns] at stands
      refine ⟨image, ?_, places_of_load there stands⟩
      simp [Session.after, originAfter, there]
    | false =>
      have same : t.columns.load image = t.columns := by
        rw [SampleColumns.load, there]
        rfl
      have before : t.columns.slots[index]? = some (some slot) := same ▸ stands
      simpa [Session.after, originAfter, there] using sound.recorded index slot before
  | edit edit => exact sound.recorded index slot (slot_of_edit stands)
  | save image =>
    refine sound.recorded index slot ?_
    simp only [Session.after, SampleColumns.after] at stands
    split at stands
    · exact stands
    · exact stands

theorem sound_run (config : Config) (requests : List Request) : (run config requests).Sound := by
  have further : ∀ t : Session, t.Sound → (requests.foldl after t).Sound := by
    induction requests with
    | nil => exact fun t sound => sound
    | cons request rest ih => exact fun t sound => ih _ (sound.after request)
  exact further _ (sound_start config)

/-- After any requests, failed ones included, every sample has its entry among the places, samples
to be saved are there, and every place is the one that was recorded in the image loaded last and
lies inside it. And a save to any image, whether it fails or not, is refused, or writes samples
within the places of those to be saved and to their loop addresses only. -/
theorem samples_in_places (config : Config) (requests : List Request) :
    let t := run config requests
    t.columns = t.soundtrack.columns ∧
      t.columns.slots.length = t.columns.samples.length ∧
      (∀ index ∈ t.columns.modified, index < t.columns.samples.length) ∧
      (∀ index slot, t.columns.slots[index]? = some (some slot) →
        ∃ image, t.origin = some image ∧ image.Places index slot ∧ slot.Inside image) ∧
      ∀ image, (t.soundtrack.save image).image = image ∨
        (t.soundtrack.save image).image =
            ((t.soundtrack.writeMusic image).andThen t.columns.save).image ∧
          Image.Frame (t.soundtrack.save image).image (t.soundtrack.writeMusic image).image
            t.columns.Region := by
  intro t
  have sound : t.Sound := sound_run config requests
  refine ⟨sound.columns, ?_, ?_, ?_, ?_⟩
  · rw [sound.columns, Soundtrack.columns, columnsOf, List.length_map, List.length_map]
  · intro index listed
    rw [sound.columns] at listed ⊢
    obtain ⟨entry, stands, -⟩ := mem_modified_columnsOf.mp listed
    have inside := (List.getElem?_eq_some_iff.mp stands).1
    rw [Soundtrack.columns, columnsOf, List.length_map]
    exact inside
  · intro index slot stands
    obtain ⟨image, origin, recorded⟩ := sound.recorded index slot stands
    exact ⟨image, origin, recorded, recorded.inside⟩
  · intro image
    rw [sound.columns]
    exact t.soundtrack.frame_save_samples image

end Session

/-! ### A beep -/

/-- A shared block with a directory of one sample, blank instruments and the single block of the
sample. -/
def beepBlock : SingleBlock := {
  bank := .common
  address := 0x3C00
  payload := [0x96, 0x3D, 0x96, 0x3D] ++ List.replicate 402 0 ++ [0x03, 0, 0, 0, 0, 0, 0, 0, 0] }

def beepImage : Image := .ofBlocks [beepBlock]

theorem uploads_beepImage :
    Uploads.ofImage beepImage .common = { bank := .common, blocks := [beepBlock.placed] } := by
  rw [beepImage, Image.uploads_ofBlocks (by decide) (by decide +kernel)]
  rfl

def beepSlot : Slot := { directory := 0xC8004, offset := 0xC819A, address := 0x3D96, capacity := 9 }

/-- The beep is loaded and renamed. -/
def beepRequests : List Request :=
  [.load beepImage, .edit (.changeSample 0 fun sample => { sample with name := "Beep" })]

def beepSession : Session := .run {} beepRequests

theorem columns_beepSession : beepSession.columns.slots[0]? = some (some beepSlot) ∧
    beepSession.columns.modified = {0} := by
  have there : beepImage.isLoaded = true := Image.isLoaded_ofBlocks _
  have columns : beepSession.columns = (({} : SampleColumns).load beepImage).change 0
      fun sample => { sample with name := "Beep" } := by
    simp only [beepSession, beepRequests, Session.run, List.foldl_cons, List.foldl_nil,
      Session.after, Session.start, SampleColumns.after, SampleColumns.edit]
  rw [columns, SampleColumns.load, there]
  simp only [uploads_beepImage]
  decide +kernel

/-- The place of the beep lies in its image, and a save to any image writes no more of it than its
nine bytes and its loop address. -/
theorem beep_in_place :
    0 < beepSession.columns.samples.length ∧ beepSlot.Inside beepImage ∧
      ∀ image, (beepSession.soundtrack.save image).image = image ∨
        Image.Frame (beepSession.soundtrack.save image).image
          (beepSession.soundtrack.writeMusic image).image
          (fun i => 0xC819A ≤ i ∧ i < 0xC81A3 ∨ 0xC8006 ≤ i ∧ i < 0xC8008) := by
  obtain ⟨place, modified⟩ := columns_beepSession
  have kept := Session.samples_in_places {} beepRequests
  rw [← beepSession] at kept
  obtain ⟨-, -, listed, inside, saves⟩ := kept
  rw [modified] at listed
  refine ⟨listed 0 (Finset.mem_singleton_self 0), ?_, fun image => ?_⟩
  · obtain ⟨image, origin, -, inside⟩ := inside 0 beepSlot place
    have loaded : beepSession.origin = some beepImage := by
      simp only [beepSession, beepRequests, Session.run, List.foldl_cons, List.foldl_nil,
        Session.after, Session.originAfter, beepImage, Image.isLoaded_ofBlocks, if_true]
    obtain rfl := Option.some.inj (origin.symm.trans loaded)
    exact inside
  · rcases saves image with refused | ⟨-, framed⟩
    · exact .inl refused
    · exact .inr (framed.mono fun i => (SampleColumns.region_iff_of_single modified place).mp)

end SnesMusic
