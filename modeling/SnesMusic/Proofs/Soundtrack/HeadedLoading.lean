import SnesMusic.Proofs.Bytecode.Calls
import SnesMusic.Proofs.CopierHeader
import SnesMusic.Soundtrack.Load

/-!
# Loading from behind a copier header

Songs, instruments and samples are read through what the banks upload, and samples remember where in
the image they were found. Main statement: loading from behind a copier header gives the same
soundtrack, with the same outcome, but for the places of its samples, which are as much further on
as the header is long (`load_headed`).
-/
namespace SnesMusic

open LittleEndian

/-! ### Songs -/

namespace Uploads

variable (u : Uploads) (limits : Limits)

theorem fragment_headed (address : UInt16) :
    u.headed.fragment limits address = u.fragment limits address := by
  apply Fragment.read_congr
  · rfl
  · exact fun target _ => u.from?_headed target

theorem track_headed (address : UInt16) :
    u.headed.track limits address = u.track limits address := by
  rw [track, track, fragment_headed]

theorem segment_headed (address : UInt16) :
    u.headed.segment limits address = u.segment limits address := by
  simp only [segment, channel, track_headed, from?_headed]

theorem segments_headed (addresses : List UInt16) :
    u.headed.segments limits addresses = u.segments limits addresses := by
  induction addresses with
  | nil => rfl
  | cons address rest ih => rw [segments, segments, segment_headed, ih]

theorem song_headed (bank : Bank) (address : UInt16) :
    u.headed.song limits bank address = u.song limits bank address := by
  simp only [song, require_headed, segments_headed]

theorem songOrPlaceholder_headed (bank : Bank) :
    u.headed.songOrPlaceholder limits bank = u.songOrPlaceholder limits bank := by
  funext slot
  simp only [songOrPlaceholder, song_headed]

end Uploads

theorem tableEntries_headed (u : Uploads) (bank : Bank) (limit : Nat) :
    tableEntries u.headed bank limit = tableEntries u bank limit := by
  simp only [tableEntries, Uploads.pointerTable, Uploads.require_headed]

variable (header : Vector UInt8 Image.headerSize) {image : Image}

theorem loadTable_headed (bare : image.Bare) (config : Config) (bank : Bank) (before : Nat) :
    loadTable (image.headed header) config bank before = loadTable image config bank before := by
  simp only [loadTable, Uploads.ofImage_headed header bare, tableEntries_headed,
    Uploads.songOrPlaceholder_headed]

theorem hasSongBlock_headed (bare : image.Bare) (config : Config) (bank : Bank) :
    hasSongBlock (image.headed header) config bank = hasSongBlock image config bank := by
  rw [hasSongBlock, hasSongBlock, bare.locate_headed, bare.locate,
    Image.readBytes_headed header bare.filled]
  cases image.readBytes bank.offset 4 <;> rfl

theorem loadExpansion_headed (bare : image.Bare) (config : Config) (bank : Bank) :
    loadExpansion (image.headed header) config bank = loadExpansion image config bank := by
  simp only [loadExpansion, hasSongBlock_headed header bare, Uploads.ofImage_headed header bare,
    tableEntries_headed, Uploads.songOrPlaceholder_headed]

theorem loadSongs_headed (bare : image.Bare) (config : Config) :
    loadSongs (image.headed header) config = loadSongs image config := by
  simp only [loadSongs, loadTable_headed header bare, loadExpansion_headed header bare,
    Image.expandedHook?_headed header bare]

/-! ### Instruments and samples -/

theorem loadInstruments_headed (common : Uploads) :
    loadInstruments common.headed = loadInstruments common := by
  simp only [loadInstruments, Uploads.require_headed]

/-- A place for a sample behind a copier header. -/
def Slot.headed (slot : Slot) : Slot :=
  { slot with
    directory := slot.directory + Image.headerSize
    offset := slot.offset + Image.headerSize }

def SampleEntry.headed (entry : SampleEntry) : SampleEntry :=
  { entry with slot := entry.slot.map Slot.headed }

theorem loadSample_headed (common : Uploads) (directory index : Nat) (start loop : UInt16) :
    loadSample common.headed (directory + Image.headerSize) index start loop =
      (loadSample common directory index start loop).headed := by
  by_cases none : start = 0
  · simp [loadSample, none, SampleEntry.headed]
  · simp only [loadSample, if_neg none, Uploads.offset?_headed, Uploads.from?_headed]
    cases common.offset? start with
    | none => rfl
    | some offset =>
      simp only [Option.map_some, SampleEntry.headed, Slot.headed]
      rw [Nat.add_right_comm]

theorem loadSamples_headed (common : Uploads) :
    loadSamples common.headed = (loadSamples common).map (·.map SampleEntry.headed) := by
  rw [loadSamples, loadSamples, Uploads.offset?_headed, Uploads.require_headed]
  cases common.offset? sampleDirectoryAddress with
  | none => rfl
  | some directory =>
    cases common.require sampleDirectoryAddress with
    | error e => rfl
    | ok data =>
      apply congrArg Except.ok
      simp only [List.map_map]
      exact List.map_congr_left fun ⟨⟨start, loop⟩, index⟩ _ =>
        loadSample_headed common directory index start loop

/-! ### Soundtracks -/

/-- A soundtrack whose samples lie behind a copier header. -/
def Soundtrack.headed (s : Soundtrack) : Soundtrack :=
  { s with entries := s.entries.map SampleEntry.headed }

def Loading.headed (l : Loading) : Loading := { l with soundtrack := l.soundtrack.headed }

/-- Loading from behind a copier header comes to the same, but for the places of the samples. -/
theorem Soundtrack.load_headed (bare : image.Bare) (s : Soundtrack) :
    s.load (image.headed header) = (s.load image).headed := by
  simp only [load, image.isLoaded_headed header, bare.isLoaded, loadSongs_headed header bare,
    image.expandedHook?_headed header bare, Uploads.ofImage_headed header bare,
    loadInstruments_headed, loadSamples_headed, Bool.not_true, Bool.false_eq_true, if_false]
  cases loadInstruments (Uploads.ofImage image .common) with
  | error e => rfl
  | ok instruments =>
    cases loadSamples (Uploads.ofImage image .common) with
    | error e => rfl
    | ok entries => simp only [Except.map, Loading.headed, Soundtrack.headed, List.length_map]

end SnesMusic
