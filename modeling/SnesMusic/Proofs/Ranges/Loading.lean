import SnesMusic.Proofs.Ranges.Samples
import SnesMusic.Proofs.Ranges.Songs
import SnesMusic.Proofs.Soundtrack.SongSlots
import SnesMusic.Proofs.Soundtrack.TableLength

/-!
# Loading on a machine

Song tables, instruments and the sample directory are read with bounded numbers, and every song,
track and sample below them as in the modules before. Main statement: an image whose size is a
number of the machine is loaded without leaving any bound, whatever its bytes and the configuration
are, and the soundtrack, the notices and the outcome are those of `Soundtrack.load`
(`load_within_bounds`).
-/
namespace SnesMusic

namespace Trapping

/-! ### Song tables -/

/-- The words of a table that stands at `address`, from number `i` on, up to the lowest song. -/
def tableLengthFrom (address lowest i : Nat) : List UInt16 → Trapping Nat
  | [] => pure i
  | entry :: rest => do
    let skipped ← index (i * 2)
    let place ← index (address + skipped)
    if lowest ≤ place then pure i
    else
      let lowest := if entry ≠ 0 ∧ address < entry.toNat then min lowest entry.toNat else lowest
      let next ← index (i + 1)
      tableLengthFrom address lowest next rest

/-- How many words belong to the table at `address`. -/
def tableLength (entries : List UInt16) (address : UInt16) : Trapping Nat := do
  let lowest ← index (0xFFFF + 1)
  tableLengthFrom address.toNat lowest 0 entries

/-- The entries of a song table; none when it cannot be read. -/
def tableEntries (image : Image) (bank : Bank) (limit : Nat) :
    Trapping (Told (List UInt16)) := do
  match ← pointerTable image bank.uploadBank bank.tableAddress limit with
  | .error e => pure { value := [], notices := [.unreadableTable bank e] }
  | .ok entries =>
    let length ← tableLength entries bank.tableAddress
    let kept ← part entries 0 length
    pure { value := kept }

/-- Songs in order, with the number of each; `count` have numbers already. -/
def numberSlots (title : Nat → String) (count : Nat) : List UInt16 → Trapping (List SongSlot)
  | [] => pure []
  | address :: rest => do
    let number ← index (count + 1)
    let others ← numberSlots title number rest
    pure ({ name := title number, address } :: others)

/-- Does something for each element in order. -/
def each {α β : Type} (f : α → Trapping (Told β)) (xs : List α) : Trapping (Told (List β)) := do
  let all ← xs.mapM f
  pure { value := all.map (·.value), notices := all.flatMap (·.notices) }

/-- Reads a song, or stands in a silent one at its address. -/
def songOrPlaceholder (image : Image) (limits : Limits) (bank : Bank) (slot : SongSlot) :
    Trapping (Told Song) :=
  if slot.address = 0 then pure { value := Song.new slot.name bank }
  else do
    let read ← (song image limits bank slot.address : Trapping (Report Song))
    match read.outcome with
    | .ok song => pure {
      value := { song with name := slot.name, modified := false }
      notices := read.notices }
    | .error e => pure {
      value := { Song.new slot.name bank with address := slot.address }
      notices := read.notices ++ [.unreadableSong slot.name slot.address bank e] }

/-- Reads the song table of one of the game's banks; `before` custom songs have names already. -/
def loadTable (image : Image) (config : Config) (bank : Bank) (before : Nat) :
    Trapping (Told LoadedTable) := do
  let entries ← tableEntries image bank maxTableEntries
  let vanilla ← each (songOrPlaceholder image config.limits bank)
    (vanillaSongSlots bank entries.value)
  let slots ← numberSlots (fun number => s!"Custom Song {number}") before
    ((entries.value.drop bank.vanillaSlots).takeWhile (· != 0))
  let custom ← each (songOrPlaceholder image config.limits bank) slots
  pure {
    value := { vanilla := vanilla.value, custom := custom.value, slots := entries.value.length }
    notices := entries.notices ++ vanilla.notices ++ custom.notices ++
      [.tableSlots bank entries.value.length] }

/-- Whether an expansion bank's first block is a song table of a size the bank admits. -/
def hasSongBlock (image : Image) (config : Config) (bank : Bank) : Trapping Bool := do
  let offset ← locate image bank.offset
  match ← readBytes image offset 4 with
  | .ok [s₀, s₁, a₀, a₁] =>
    let size := LittleEndian.word s₀ s₁
    pure (LittleEndian.word a₀ a₁ == bank.tableAddress && size != 0 &&
      size.toNat ≤ config.limit bank)
  | _ => pure false

/-- Reads the song table of an expansion bank. -/
def loadExpansion (image : Image) (config : Config) (bank : Bank) :
    Trapping (Told LoadedTable) := do
  if !(← hasSongBlock image config bank) then
    pure { value := {}, notices := [.noSongBlock bank] }
  else
    let entries ← tableEntries image bank maxExpandedSongs
    let slots ← numberSlots (fun number => s!"{bank.name} Song {number}") 0
      (entries.value.filter (· != 0))
    let custom ← each (songOrPlaceholder image config.limits bank) slots
    pure {
      value := { custom := custom.value, slots := slots.length }
      notices := entries.notices ++ custom.notices }

/-- Reads the song tables of both expansion banks when the patch is there. -/
def loadExpansions (image : Image) (config : Config) (hook : Option Nat) :
    Trapping (Told (LoadedTable × LoadedTable)) :=
  match hook with
  | none => pure { value := ({}, {}) }
  | some hook => do
    let expanded ← loadExpansion image config .overworldExpanded
    let auxiliary ← loadExpansion image config .auxiliary
    pure {
      value := (expanded.value, auxiliary.value)
      notices := .expandedMusic hook :: expanded.notices ++ auxiliary.notices }

/-- Reads all song tables, those of the expansion banks only with the patch. -/
def loadSongs (image : Image) (config : Config) (hook : Option Nat) :
    Trapping (Told LoadedSongs) := do
  let overworld ← loadTable image config .overworld 0
  let dungeon ← loadTable image config .dungeon overworld.value.custom.length
  let before ← index (overworld.value.custom.length + dungeon.value.custom.length)
  let credits ← loadTable image config .credits before
  let expansions ← loadExpansions image config hook
  let tables (bank : Bank) : LoadedTable := match bank with
    | .overworld => overworld.value
    | .dungeon => dungeon.value
    | .credits => credits.value
    | .overworldExpanded => expansions.value.1
    | .auxiliary => expansions.value.2
  pure {
    value := {
      songs := Bank.all.flatMap (fun b => (tables b).vanilla) ++
        Bank.all.flatMap (fun b => (tables b).custom)
      tableSlots := fun b => (tables b).slots }
    notices := overworld.notices ++ dungeon.notices ++ credits.notices ++ expansions.notices }

/-! ### Instruments and samples -/

def loadInstruments (image : Image) : Trapping (Except MusicError (List Instrument)) := do
  match ← require image .common instrumentTableAddress with
  | .error e => pure (.error e)
  | .ok data =>
    match range? data 0 (instrumentCount * instrumentSize) with
    | none => pure (.error (.malformed .truncatedInstruments))
    | some table => pure (.ok (readInstruments instrumentNames table))

/-- The two addresses in a directory entry of four bytes. -/
def entryOf (piece : List UInt8) : Trapping (UInt16 × UInt16) := do
  let s₀ ← item piece 0
  let s₁ ← item piece 1
  let l₀ ← item piece 2
  let l₁ ← item piece 3
  pure (LittleEndian.word s₀ s₁, LittleEndian.word l₀ l₁)

/-- Where a sample stands in the image, if there is one. -/
def sampleOffset? (image : Image) (start : UInt16) : Trapping (Option Nat) :=
  if start = 0 then pure none else offset? image .common start

/-- Reads the sample of a directory entry. -/
def loadSample (image : Image) (directory i : Nat) (start loop : UInt16) :
    Trapping SampleEntry := do
  let name := "Sample " ++ Text.hexUpper 2 i
  match ← sampleOffset? image start with
  | none => pure { sample := { name } }
  | some offset =>
    let data ← from? image .common start
    let sample ← sampleOf name start loop (data.getD [])
    let skipped ← index (i * 4)
    let place ← index (directory + skipped)
    pure {
      sample
      slot := some {
        directory := place
        offset
        address := start
        capacity := sample.encoded.length } }

def loadSamples (image : Image) : Trapping (Except MusicError (List SampleEntry)) := do
  match ← offset? image .common sampleDirectoryAddress with
  | none => pure (.error (.addressNotFound sampleDirectoryAddress .common))
  | some directory =>
    match ← require image .common sampleDirectoryAddress with
    | .error e => pure (.error e)
    | .ok data =>
      let entries ← ((chunks 4 data).take maxSamples).mapM entryOf
      let samples ← entries.zipIdx.mapM fun ((start, loop), i) =>
        loadSample image directory i start loop
      pure (.ok samples)

/-! ### Soundtracks -/

/-- Loads the image's music in place of what was there. -/
def load (s : Soundtrack) (image : Image) : Trapping Loading := do
  if !image.isLoaded then
    pure { soundtrack := s, notices := [], outcome := .error .imageNotLoaded }
  else
    let hook ← expandedHook? image
    let songs ← loadSongs image s.config hook
    let withSongs : Soundtrack := {
      config := s.config
      loaded := s.loaded
      hook
      songs := songs.value.songs
      tableSlots := songs.value.tableSlots }
    match ← loadInstruments image with
    | .error e => pure { soundtrack := withSongs, notices := songs.notices, outcome := .error e }
    | .ok instruments =>
      let withInstruments := { withSongs with instruments }
      match ← loadSamples image with
      | .error e =>
        pure { soundtrack := withInstruments, notices := songs.notices, outcome := .error e }
      | .ok entries => pure {
        soundtrack := { withInstruments with entries, loaded := true }
        notices := songs.notices ++
          [.loaded songs.value.songs.length instruments.length entries.length]
        outcome := .ok () }

/-! ### Tables within bounds -/

theorem tableLengthFrom_eq {address : Nat} (low : address < 2 ^ 16) {entries : List UInt16}
    {i : Nat} (few : i + entries.length < 2 ^ 16) (lowest : Nat) :
    tableLengthFrom address lowest i entries =
      pure (SnesMusic.tableLengthFrom address lowest i entries) := by
  induction entries generalizing i lowest with
  | nil => rfl
  | cons entry rest ih =>
    rw [List.length_cons] at few
    rw [tableLengthFrom, index_eq_of_small (by omega), pure_bind, index_eq_of_small (by omega),
      pure_bind, SnesMusic.tableLengthFrom]
    split
    · rfl
    · rw [index_eq_of_small (by omega), pure_bind, ih (by omega)]

theorem tableLength_eq {entries : List UInt16} (few : entries.length < 2 ^ 16)
    (address : UInt16) :
    tableLength entries address = pure (SnesMusic.tableLength entries address) := by
  rw [tableLength, index_eq_of_small (by omega), pure_bind,
    tableLengthFrom_eq address.toNat_lt (by omega)]
  rfl

theorem length_pointerTable {u : Uploads} {address : UInt16} {limit : Nat} {entries : List UInt16}
    (read : u.pointerTable address limit = .ok entries) : entries.length ≤ limit := by
  unfold Uploads.pointerTable at read
  cases required : u.require address with
  | error e =>
    rw [required] at read
    exact absurd read (by simp [bind, Except.bind])
  | ok data =>
    rw [required] at read
    simp only [bind, Except.bind] at read
    split at read
    · simp at read
    · obtain rfl := Except.ok.inj read
      exact List.length_take_le _ _

variable {image : Image} {limit : Nat}

theorem length_tableEntries (u : Uploads) (bank : Bank) (limit : Nat) :
    (SnesMusic.tableEntries u bank limit).value.length ≤ limit := by
  unfold SnesMusic.tableEntries
  split
  · rename_i entries read
    have bound := length_pointerTable read
    rw [List.length_take]
    omega
  · exact Nat.zero_le _

theorem tableEntries_eq (fits : image.size < USize.size) (bank : Bank) (few : limit < 2 ^ 16) :
    tableEntries image bank limit =
      pure (SnesMusic.tableEntries (Uploads.ofImage image bank.uploadBank) bank limit) := by
  rw [tableEntries, pointerTable_eq fits, pure_bind, SnesMusic.tableEntries]
  cases read : (Uploads.ofImage image bank.uploadBank).pointerTable bank.tableAddress limit with
  | error e => rfl
  | ok entries =>
    have bound := length_pointerTable read
    simp only [tableLength_eq (show entries.length < 2 ^ 16 by omega), pure_bind,
      part_zero (tableLength_le entries bank.tableAddress)]

theorem numberSlots_eq (title : Nat → String) {count : Nat} {addresses : List UInt16}
    (few : count + addresses.length < 2 ^ 32) :
    numberSlots title count addresses =
      pure ((addresses.zipIdx (count + 1)).map fun x => { name := title x.2, address := x.1 }) := by
  induction addresses generalizing count with
  | nil => rfl
  | cons address rest ih =>
    rw [List.length_cons] at few
    rw [numberSlots, index_eq_of_small (by omega), pure_bind, ih (by omega), pure_bind]
    rfl

theorem each_eq {α β : Type} {f : α → Trapping (Told β)} {g : α → Told β}
    (same : ∀ x, f x = pure (g x)) (xs : List α) : each f xs = pure (Told.each g xs) := by
  rw [each, mapM_eq fun x _ => same x]
  rfl

theorem songOrPlaceholder_eq (fits : image.size < USize.size) (limits : Limits) (bank : Bank)
    (slot : SongSlot) :
    songOrPlaceholder image limits bank slot = pure
      ((Uploads.ofImage image bank.uploadBank).songOrPlaceholder limits bank slot) := by
  rw [songOrPlaceholder, Uploads.songOrPlaceholder, song_eq limits fits]
  split
  · rfl
  · generalize (Uploads.ofImage image bank.uploadBank).song limits bank slot.address = read
    obtain ⟨notices, error | song⟩ := read
    · rfl
    · rfl

/-- The words of a table that stand for songs beyond the game's own. -/
theorem length_customWords_le (u : Uploads) (bank : Bank) :
    (((SnesMusic.tableEntries u bank maxTableEntries).value.drop bank.vanillaSlots).takeWhile
      (· != 0)).length ≤ 64 := by
  have bound := length_tableEntries u bank maxTableEntries
  have taken := ((SnesMusic.tableEntries u bank maxTableEntries).value.drop
    bank.vanillaSlots).takeWhile_sublist (· != 0) |>.length_le
  rw [List.length_drop] at taken
  unfold maxTableEntries at *
  omega

theorem loadTable_eq (fits : image.size < USize.size) (config : Config) (bank : Bank)
    {before : Nat} (few : before < 2 ^ 16) :
    loadTable image config bank before = pure (SnesMusic.loadTable image config bank before) := by
  have custom := length_customWords_le (Uploads.ofImage image bank.uploadBank) bank
  rw [loadTable, tableEntries_eq fits bank (by decide), pure_bind,
    each_eq (songOrPlaceholder_eq fits config.limits bank), pure_bind,
    numberSlots_eq _ (by omega), pure_bind,
    each_eq (songOrPlaceholder_eq fits config.limits bank), pure_bind]
  rfl

theorem hasSongBlock_eq (fits : image.size < USize.size) (config : Config) (bank : Bank) :
    hasSongBlock image config bank = pure (SnesMusic.hasSongBlock image config bank) := by
  rw [hasSongBlock, locate_eq image (show bank.offset ≤ 0x1ACCA7 from bank.uploadBank.offset_le),
    pure_bind, readBytes_eq fits,
    pure_bind, SnesMusic.hasSongBlock]
  cases read : image.readBytes (image.locate bank.offset) 4 with
  | error e => rfl
  | ok header =>
    obtain ⟨s₀, s₁, a₀, a₁, rfl⟩ := List.length_eq_four.mp (Image.length_of_readBytes read)
    rfl

theorem loadExpansion_eq (fits : image.size < USize.size) (config : Config) (bank : Bank) :
    loadExpansion image config bank = pure (SnesMusic.loadExpansion image config bank) := by
  have bound := length_tableEntries (Uploads.ofImage image bank.uploadBank) bank maxExpandedSongs
  have filtered := List.length_filter_le (· != 0)
    (SnesMusic.tableEntries (Uploads.ofImage image bank.uploadBank) bank maxExpandedSongs).value
  rw [loadExpansion, hasSongBlock_eq fits, pure_bind, SnesMusic.loadExpansion]
  split
  · rfl
  · rw [tableEntries_eq fits bank (by decide), pure_bind,
      numberSlots_eq _ (by unfold maxExpandedSongs at *; omega), pure_bind,
      each_eq (songOrPlaceholder_eq fits config.limits bank), pure_bind]

theorem loadExpansions_eq (fits : image.size < USize.size) (config : Config)
    (hook : Option Nat) :
    loadExpansions image config hook = pure (match hook with
      | none => { value := ({}, {}) }
      | some hook => {
        value := ((SnesMusic.loadExpansion image config .overworldExpanded).value,
          (SnesMusic.loadExpansion image config .auxiliary).value)
        notices := .expandedMusic hook ::
          (SnesMusic.loadExpansion image config .overworldExpanded).notices ++
            (SnesMusic.loadExpansion image config .auxiliary).notices }) := by
  cases hook with
  | none => rfl
  | some hook =>
    rw [loadExpansions, loadExpansion_eq fits, pure_bind, loadExpansion_eq fits, pure_bind]

theorem length_custom_loadTable (image : Image) (config : Config) (bank : Bank) (before : Nat) :
    (SnesMusic.loadTable image config bank before).value.custom.length ≤ 64 := by
  have custom := length_customWords_le (Uploads.ofImage image bank.uploadBank) bank
  simpa only [SnesMusic.loadTable, Told.value_each, customSongSlots, List.length_map,
    List.length_zipIdx] using custom

theorem loadSongs_eq (fits : image.size < USize.size) (config : Config) :
    loadSongs image config image.expandedHook? = pure (SnesMusic.loadSongs image config) := by
  have overworld := length_custom_loadTable image config .overworld 0
  have dungeon := length_custom_loadTable image config .dungeon
    (SnesMusic.loadTable image config .overworld 0).value.custom.length
  rw [loadSongs, loadTable_eq fits config _ (by decide), pure_bind,
    loadTable_eq fits config _ (by omega), pure_bind, index_eq_of_small (by omega), pure_bind,
    loadTable_eq fits config _ (by omega), pure_bind, loadExpansions_eq fits, pure_bind]
  rfl

/-! ### Instruments and samples within bounds -/

theorem loadInstruments_eq (fits : image.size < USize.size) :
    loadInstruments image =
      pure (SnesMusic.loadInstruments (Uploads.ofImage image .common)) := by
  rw [loadInstruments, require_eq fits, pure_bind, SnesMusic.loadInstruments]
  cases (Uploads.ofImage image .common).require instrumentTableAddress with
  | error e => rfl
  | ok data =>
    change (match range? data 0 (instrumentCount * instrumentSize) with
      | none => _
      | some table => _) = pure (if (data.take (instrumentCount * instrumentSize)).length <
        instrumentCount * instrumentSize then _ else _)
    rw [range?, List.length_take]
    by_cases whole : instrumentCount * instrumentSize ≤ data.length
    · rw [if_pos ⟨Nat.zero_le _, whole⟩, if_neg (by omega)]
      rfl
    · rw [if_neg fun both => whole both.2, if_pos (by omega)]
      rfl

/-- The addresses in a directory entry. -/
def addressesOf (piece : List UInt8) : UInt16 × UInt16 :=
  (LittleEndian.word (piece.getD 0 0) (piece.getD 1 0),
    LittleEndian.word (piece.getD 2 0) (piece.getD 3 0))

theorem directoryEntries_eq_chunks (data : List UInt8) :
    directoryEntries data = (chunks 4 data).map addressesOf := by
  refine eq_map_chunks (by decide) ?_ ?_ data
  · intro piece rest whole
    obtain ⟨s₀, s₁, l₀, l₁, rfl⟩ := List.length_eq_four.mp whole
    rfl
  · intro rest short
    match rest, short with
    | [], _ | [_], _ | [_, _], _ | [_, _, _], _ => rfl

theorem entries_eq (data : List UInt8) :
    ((chunks 4 data).take maxSamples).mapM entryOf =
      pure ((directoryEntries data).take maxSamples) := by
  rw [directoryEntries_eq_chunks, ← List.map_take]
  apply mapM_eq
  intro piece member
  obtain ⟨s₀, s₁, l₀, l₁, rfl⟩ :=
    List.length_eq_four.mp (length_of_mem_chunks (List.mem_of_mem_take member))
  rfl

theorem sampleOffset?_eq (fits : image.size < USize.size) (start : UInt16) :
    sampleOffset? image start = pure
      (if start = 0 then none else (Uploads.ofImage image .common).offset? start) := by
  unfold sampleOffset?
  split
  · rfl
  · exact offset?_eq fits .common start

theorem length_getD_from?_lt (image : Image) (bank : UploadBank) (address : UInt16) :
    (((Uploads.ofImage image bank).from? address).getD []).length < UInt16.size := by
  cases found : (Uploads.ofImage image bank).from? address with
  | none => decide
  | some data => exact length_lt_of_from? found

theorem loadSample_eq (fits : image.size < USize.size) {directory i : Nat} (few : i < 2 ^ 16)
    (inside : directory + i * 4 < USize.size) (start loop : UInt16) :
    loadSample image directory i start loop = pure
      (SnesMusic.loadSample (Uploads.ofImage image .common) directory i start loop) := by
  rw [loadSample, sampleOffset?_eq fits, pure_bind, SnesMusic.loadSample]
  simp only
  cases (if start = 0 then none else (Uploads.ofImage image .common).offset? start) with
  | none => rfl
  | some offset =>
    have skipped : index (i * 4) = pure (i * 4) := index_eq_of_small (by omega)
    simp only [from?_eq fits, pure_bind,
      sampleOf_eq _ _ _ (length_getD_from?_lt image .common start), skipped, index_eq inside]

/-- Bytes that are uploaded end inside the image. -/
theorem offset_add_length_le {bank : UploadBank} {address : UInt16} {directory : Nat}
    {data : List UInt8}
    (place : (Uploads.ofImage image bank).offset? address = some directory)
    (required : (Uploads.ofImage image bank).require address = .ok data) :
    directory + data.length ≤ image.size := by
  have found := from?_of_require required
  obtain ⟨b, -, here, -⟩ := Uploads.offset?_of_from? found
  obtain ⟨-, filled, -⟩ := suffix_of_from? here
  obtain ⟨offset, located, stands⟩ := Uploads.has_of_from? found
  obtain rfl := Option.some.inj (place.symm.trans located)
  exact stands.size_ge filled

theorem loadSamples_eq (fits : image.size < USize.size) :
    loadSamples image = pure (SnesMusic.loadSamples (Uploads.ofImage image .common)) := by
  rw [loadSamples, offset?_eq fits, pure_bind, SnesMusic.loadSamples]
  cases place : (Uploads.ofImage image .common).offset? sampleDirectoryAddress with
  | none => rfl
  | some directory =>
    simp only [require_eq fits, pure_bind]
    cases required : (Uploads.ofImage image .common).require sampleDirectoryAddress with
    | error e => rfl
    | ok data =>
      have inside := offset_add_length_le place required
      have entries := length_chunks_mul_le 4 data
      have small := length_lt_of_require required
      unfold UInt16.size at small
      have each : ∀ x ∈ ((directoryEntries data).take maxSamples).zipIdx,
          loadSample image directory x.2 x.1.1 x.1.2 = pure (SnesMusic.loadSample
            (Uploads.ofImage image .common) directory x.2 x.1.1 x.1.2) := by
        intro x member
        have below := List.snd_lt_of_mem_zipIdx member
        rw [List.length_take, directoryEntries_eq_chunks, List.length_map] at below
        exact loadSample_eq fits (by omega) (by omega) x.1.1 x.1.2
      simp only [entries_eq, pure_bind, mapM_eq each]
      rfl

end Trapping

/-! ### Soundtracks within bounds -/

open Trapping in
/-- An image of any bytes is loaded within the machine's bounds under any configuration: no number
outgrows its word, no difference falls below zero, no place lies outside its list and every loop
moves on, whether loading succeeds or fails, and what it comes to is what the library computes. -/
theorem Soundtrack.load_within_bounds {image : Image} (fits : image.size < USize.size)
    (s : Soundtrack) : Trapping.load s image = .ok (s.load image) := by
  unfold Trapping.load Soundtrack.load
  split
  · rfl
  · rw [expandedHook?_eq fits, pure_bind, loadSongs_eq fits, pure_bind]
    simp only [loadInstruments_eq fits, loadSamples_eq fits, pure_bind]
    cases SnesMusic.loadInstruments (Uploads.ofImage image .common) with
    | error e => rfl
    | ok instruments =>
      cases SnesMusic.loadSamples (Uploads.ofImage image .common) <;> rfl

/-- An image that loads, with instruments and samples. -/
theorem load_within_bounds_soldierImage :
    soldierImage.size < USize.size ∧ (roomy.load soldierImage).outcome = .ok () ∧
      Trapping.load roomy soldierImage = .ok (roomy.load soldierImage) := by
  have fits : soldierImage.size < USize.size := by
    rw [soldierImage, Image.size_ofBlocks]
    exact Nat.lt_of_lt_of_le (by decide) USize.le_size
  exact ⟨fits, loads_soldierImage, Soundtrack.load_within_bounds fits roomy⟩

end SnesMusic
