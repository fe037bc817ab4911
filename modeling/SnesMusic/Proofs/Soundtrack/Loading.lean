import SnesMusic.Proofs.Bytecode.SongOrigin
import SnesMusic.Proofs.Soundtrack.Placement
import SnesMusic.Soundtrack.Load

/-!
# Loaded song tables

Which songs are loaded for a bank. Main statements: a bank's songs are read from the addresses in
its song table, in their order (`songsIn_load`), and of a table with a null word and songs behind it
just the table is taken (`take_tableLength`).
-/
namespace SnesMusic

open LittleEndian

/-! ### Table lengths -/

/-- When the lowest song begins behind `count` entries and one more, as many are taken. -/
theorem tableLengthFrom_of_lowest {address count index : Nat} {entries : List UInt16}
    (before : index ≤ count + 1)
    (behind : ∀ entry ∈ entries.take (count + 1 - index),
      entry = 0 ∨ address + (count + 1) * 2 ≤ entry.toNat) :
    tableLengthFrom address (address + (count + 1) * 2) index entries =
      min (count + 1) (index + entries.length) := by
  induction entries generalizing index with
  | nil =>
    rw [tableLengthFrom, List.length_nil]
    omega
  | cons entry rest ih =>
    unfold tableLengthFrom
    by_cases full : index = count + 1
    · subst full
      rw [if_pos (Nat.le_refl _), List.length_cons]
      omega
    · obtain ⟨left, more⟩ := Nat.exists_eq_add_of_le' (show 1 ≤ count + 1 - index by omega)
      rw [more, List.take_succ_cons] at behind
      have here := behind entry (List.mem_cons_self ..)
      have later : ∀ other ∈ rest.take (count + 1 - (index + 1)),
          other = 0 ∨ address + (count + 1) * 2 ≤ other.toNat := by
        intro other member
        rw [show count + 1 - (index + 1) = left by omega] at member
        exact behind other (List.mem_cons_of_mem _ member)
      rw [if_neg (by omega)]
      have lowest : (if entry ≠ 0 ∧ address < entry.toNat then
          min (address + (count + 1) * 2) entry.toNat else address + (count + 1) * 2) =
            address + (count + 1) * 2 := by
        rcases here with null | above
        · simp [null]
        · split <;> omega
      simp only [lowest]
      rw [ih (by omega) later, List.length_cons]
      omega

/-- The words of a table of songs that follow it are taken, with the null word behind them, and
none of the songs' own. -/
theorem take_tableLength {address : UInt16} {addresses rest : List UInt16} {limit : Nat}
    (first : ∀ entry ∈ addresses.head?, entry.toNat = address.toNat + (addresses.length + 1) * 2)
    (behind : ∀ entry ∈ addresses, address.toNat + (addresses.length + 1) * 2 ≤ entry.toNat)
    (alone : addresses = [] → rest = []) :
    let entries := (addresses ++ 0 :: rest).take limit
    entries.take (tableLength entries address) = (addresses ++ [0]).take limit := by
  intro entries
  cases addresses with
  | nil =>
    simp only [alone rfl, List.nil_append, entries]
    cases limit with
    | zero => rfl
    | succ limit =>
      have below := address.toNat_lt
      simp only [List.take_succ_cons, List.take_nil, tableLength, tableLengthFrom]
      rw [if_neg (by omega)]
      rfl
  | cons entry others =>
    cases limit with
    | zero => rfl
    | succ limit =>
      have place := first entry rfl
      have below := entry.toNat_lt
      have length : tableLength entries address =
          min (others.length + 1 + 1) (1 + ((others ++ 0 :: rest).take limit).length) := by
        simp only [entries, List.cons_append, List.take_succ_cons, tableLength, tableLengthFrom]
        rw [List.length_cons] at place behind
        have nonzero : entry ≠ 0 := by
          intro null
          simp only [null, UInt16.toNat_zero] at place
          omega
        rw [if_neg (by omega), if_pos ⟨nonzero, by omega⟩, Nat.min_eq_right (by omega), place]
        refine tableLengthFrom_of_lowest (by omega) ?_
        intro other member
        have inside : other ∈ others ++ [0] := by
          rw [List.take_take] at member
          have covered := List.take_subset_take_left (others ++ 0 :: rest)
            (show min (others.length + 1 + 1 - 1) limit ≤ others.length + 1 by omega) member
          rw [List.take_length_add_append] at covered
          exact covered
        rcases List.mem_append.mp inside with own | null
        · exact Or.inr (behind other (List.mem_cons_of_mem _ own))
        · exact Or.inl (List.mem_singleton.mp null)
      have whole : (entry :: others ++ 0 :: rest).take (others.length + 1 + 1) =
          entry :: others ++ [0] := by
        show (entry :: others ++ 0 :: rest).take ((entry :: others).length + 1) = _
        exact List.take_length_add_append 1
      have bounded : 1 + ((others ++ 0 :: rest).take limit).length = entries.length := by
        simp only [entries, List.cons_append, List.take_succ_cons, List.length_cons]
        omega
      rw [length, bounded, ← List.take_take, List.take_length]
      simp only [entries]
      rw [List.take_take, Nat.min_comm, ← List.take_take, whole]

/-! ### Loaded songs -/

theorem Uploads.bank_songOrPlaceholder (u : Uploads) (limits : Limits) (bank : Bank)
    (slot : SongSlot) : (u.songOrPlaceholder limits bank slot).value.bank = bank := by
  unfold Uploads.songOrPlaceholder
  split
  · rfl
  · cases read : (u.song limits bank slot.address).outcome with
    | error e => simp [read, Song.new]
    | ok song => simpa [read] using (Uploads.song_ok read).2.1

theorem Uploads.modified_songOrPlaceholder (u : Uploads) (limits : Limits) (bank : Bank)
    (slot : SongSlot) : (u.songOrPlaceholder limits bank slot).value.modified = false := by
  unfold Uploads.songOrPlaceholder
  split
  · rfl
  · simp only
    split <;> rfl

theorem Uploads.segmented_songOrPlaceholder (u : Uploads) (limits : Limits) (bank : Bank)
    (slot : SongSlot) : (u.songOrPlaceholder limits bank slot).value.segments ≠ [] := by
  unfold Uploads.songOrPlaceholder
  split
  · simp [Song.new]
  · cases read : (u.song limits bank slot.address).outcome with
    | error e => simp [read, Song.new]
    | ok song => simpa [read] using Uploads.segments_of_song read

/-- Without depth all loaded songs are silent. -/
theorem Uploads.depth_of_songOrPlaceholder {u : Uploads} {limits : Limits} {bank : Bank}
    {slot : SongSlot} : ∀ track ∈ (u.songOrPlaceholder limits bank slot).value.tracks,
      track.empty = false → 1 ≤ limits.depth := by
  have silent : ∀ name, ∀ track ∈ (Song.new name bank).tracks, track.empty = true := by
    intro name
    change ∀ track ∈ [Segment.silent].flatMap (·.tracks.toList), track.empty = true
    decide
  intro track
  unfold Uploads.songOrPlaceholder
  split
  · intro member filled
    simp [silent _ track member] at filled
  · simp only
    cases read : (u.song limits bank slot.address).outcome with
    | error e =>
      intro member filled
      simp [silent slot.name track member] at filled
    | ok song => exact Uploads.depth_of_song read track

/-- The place in a song table decides all of a loaded song but its name. -/
theorem Uploads.songOrPlaceholder_congr (u : Uploads) (limits : Limits) (bank : Bank)
    {slot slot' : SongSlot} (same : slot'.address = slot.address) :
    (u.songOrPlaceholder limits bank slot').value =
      { (u.songOrPlaceholder limits bank slot).value with name := slot'.name } := by
  rw [songOrPlaceholder, songOrPlaceholder, same]
  split
  · rfl
  · cases read : (u.song limits bank slot.address).outcome with
    | error e => simp [read, Song.new]
    | ok song => simp [read]

/-- The table of each bank as it is loaded. -/
def loadedTable (image : Image) (config : Config) (bank : Bank) : LoadedTable :=
  let overworld := (loadTable image config .overworld 0).value
  let dungeon := (loadTable image config .dungeon overworld.custom.length).value
  match bank with
  | .overworld => overworld
  | .dungeon => dungeon
  | .credits =>
    (loadTable image config .credits (overworld.custom.length + dungeon.custom.length)).value
  | .overworldExpanded | .auxiliary =>
    if image.expandedHook?.isSome then (loadExpansion image config bank).value else {}

theorem songs_loadSongs (image : Image) (config : Config) :
    (loadSongs image config).value.songs =
      Bank.all.flatMap (fun bank => (loadedTable image config bank).vanilla) ++
        Bank.all.flatMap (fun bank => (loadedTable image config bank).custom) := by
  unfold loadSongs
  cases hook : image.expandedHook? <;> simp [Bank.all, loadedTable, hook]

/-- How many entries of a bank's table are looked at. -/
def Bank.maxSongs (bank : Bank) : Nat :=
  if bank.isExpansion then maxExpandedSongs else maxTableEntries

theorem Bank.vanillaSlots_of_isExpansion {bank : Bank} (own : bank.isExpansion = true) :
    bank.vanillaSlots = 0 := by
  cases bank <;> first | rfl | simp [Bank.isExpansion] at own

theorem Bank.vanillaSlots_le (bank : Bank) : bank.vanillaSlots ≤ bank.maxSongs := by
  cases bank <;> decide

/-- The words of a bank's song table. -/
def tableWords (image : Image) (bank : Bank) : List UInt16 :=
  (tableEntries (Uploads.ofImage image bank.uploadBank) bank bank.maxSongs).value

/-- The addresses that a bank's songs are read from; null for those without a place. -/
def songAddresses (image : Image) (config : Config) (bank : Bank) : List UInt16 :=
  if bank.isExpansion then
    if image.expandedHook?.isSome && hasSongBlock image config bank then
      (tableWords image bank).filter (· != 0)
    else []
  else
    (List.range bank.vanillaSlots).map (fun i => (tableWords image bank).getD i 0) ++
      ((tableWords image bank).drop bank.vanillaSlots).takeWhile (· != 0)

theorem address_vanillaSongSlots (bank : Bank) (entries : List UInt16) :
    (vanillaSongSlots bank entries).map (·.address) =
      (List.range bank.vanillaSlots).map fun i => entries.getD i 0 := by
  rw [vanillaSongSlots, Bank.vanillaSlots]
  cases bank.songRange with
  | none => rfl
  | some range => simp [Function.comp_def]

theorem address_zipIdx {words : List UInt16} {start : Nat} {slot : UInt16 × Nat → SongSlot}
    (same : ∀ numbered, (slot numbered).address = numbered.1) :
    ((words.zipIdx start).map slot).map (·.address) = words := by
  rw [List.map_map, show (·.address) ∘ slot = Prod.fst from funext same]
  exact List.zipIdx_map_fst _ _

/-- The game's own slots of a table come first. -/
theorem take_songAddresses (image : Image) (config : Config) (bank : Bank) :
    (songAddresses image config bank).take bank.vanillaSlots =
      (vanillaSongSlots bank (tableWords image bank)).map (·.address) := by
  have game : ∀ words : List UInt16,
      ((List.range bank.vanillaSlots).map (fun i => (tableWords image bank).getD i 0) ++
        words).take bank.vanillaSlots =
          (List.range bank.vanillaSlots).map fun i => (tableWords image bank).getD i 0 :=
    fun words => List.take_left' (by simp)
  rw [address_vanillaSongSlots, songAddresses]
  cases bank with
  | overworld | dungeon | credits => exact game _
  | overworldExpanded | auxiliary => exact List.take_zero

/-- The slots behind the game's own are the words of the table up to the first null word; in the
expansions, which hold none of the game's songs, they are all words but the null ones. -/
theorem drop_songAddresses (image : Image) (config : Config) (bank : Bank) :
    (songAddresses image config bank).drop bank.vanillaSlots =
      if bank.isExpansion then songAddresses image config bank
      else ((tableWords image bank).drop bank.vanillaSlots).takeWhile (· != 0) := by
  have game : ∀ words : List UInt16,
      ((List.range bank.vanillaSlots).map (fun i => (tableWords image bank).getD i 0) ++
        words).drop bank.vanillaSlots = words :=
    fun words => List.drop_left' (by simp)
  cases bank with
  | overworld | dungeon | credits => exact game _
  | overworldExpanded | auxiliary => exact List.drop_zero

/-- The slots of a bank behind those of the game. In the game's banks `before` custom songs have
names already. -/
def furtherSongSlots (image : Image) (config : Config) (bank : Bank) (before : Nat) :
    List SongSlot :=
  if bank.isExpansion then
    ((songAddresses image config bank).zipIdx 1).map fun (address, number) =>
      { name := s!"{bank.name} Song {number}", address }
  else customSongSlots bank before (tableWords image bank)

theorem address_furtherSongSlots (image : Image) (config : Config) (bank : Bank) (before : Nat) :
    (furtherSongSlots image config bank before).map (·.address) =
      (songAddresses image config bank).drop bank.vanillaSlots := by
  rw [drop_songAddresses, furtherSongSlots]
  split
  · exact address_zipIdx fun _ => rfl
  · rw [customSongSlots, address_zipIdx fun _ => rfl]

/-- A bank's table as it is loaded: every slot gives a song, in its place. Of an expansion the songs
are counted, of the game's banks the words. -/
theorem loadedTable_eq (image : Image) (config : Config) (bank : Bank) :
    let read (slot : SongSlot) :=
      ((Uploads.ofImage image bank.uploadBank).songOrPlaceholder config.limits bank slot).value
    ∃ before, loadedTable image config bank = {
      vanilla := (vanillaSongSlots bank (tableWords image bank)).map read
      custom := (furtherSongSlots image config bank before).map read
      slots := if bank.isExpansion then (songAddresses image config bank).length
        else (tableWords image bank).length } := by
  intro read
  have game : ∀ before, bank.isExpansion = false →
      (loadTable image config bank before).value = {
        vanilla := (vanillaSongSlots bank (tableWords image bank)).map read
        custom := (furtherSongSlots image config bank before).map read
        slots := if bank.isExpansion then (songAddresses image config bank).length
          else (tableWords image bank).length } := by
    intro before own
    simp only [loadTable, Told.value_each, furtherSongSlots, tableWords, Bank.maxSongs, own]
    rfl
  have expansion : bank.isExpansion = true →
      (if image.expandedHook?.isSome then (loadExpansion image config bank).value else {}) = {
        vanilla := []
        custom := (furtherSongSlots image config bank 0).map read
        slots := (songAddresses image config bank).length } := by
    intro own
    rw [furtherSongSlots, if_pos own]
    by_cases present : image.expandedHook?.isSome = true ∧ hasSongBlock image config bank = true
    · simp only [songAddresses, own, present.1, present.2, if_true, Bool.and_self, loadExpansion,
        Bool.not_true, Bool.false_eq_true, if_false, Told.value_each, tableWords, Bank.maxSongs,
        List.length_map, List.length_zipIdx, read]
    · rw [songAddresses, if_pos own]
      cases hook : image.expandedHook?.isSome <;> simp_all [loadExpansion]
  cases bank with
  | overworld | dungeon | credits => exact ⟨_, game _ rfl⟩
  | overworldExpanded | auxiliary => exact ⟨0, expansion rfl⟩

/-- Every loaded song is read from its place in the table. -/
theorem loadedTable_songs (image : Image) (config : Config) (bank : Bank) :
    ∃ slots : List SongSlot,
      slots.map (·.address) = songAddresses image config bank ∧
      (loadedTable image config bank).vanilla ++ (loadedTable image config bank).custom =
        slots.map fun slot => ((Uploads.ofImage image bank.uploadBank).songOrPlaceholder
          config.limits bank slot).value := by
  obtain ⟨before, table⟩ := loadedTable_eq image config bank
  refine ⟨vanillaSongSlots bank (tableWords image bank) ++
    furtherSongSlots image config bank before, ?_, ?_⟩
  · rw [List.map_append, address_furtherSongSlots, ← take_songAddresses image config,
      List.take_append_drop]
  · rw [table, List.map_append]

theorem songsOf_append (bank : Bank) (songs others : List Song) :
    songsOf bank (songs ++ others) = songsOf bank songs ++ songsOf bank others :=
  List.filter_append _ _

/-- Of songs that each bank gives, those of a bank are the ones it gives itself. -/
theorem songsOf_flatMap_all {given : Bank → List Song}
    (own : ∀ bank, ∀ song ∈ given bank, song.bank = bank) (bank : Bank) :
    songsOf bank (Bank.all.flatMap given) = given bank := by
  have filtered : ∀ other,
      songsOf bank (given other) = if other = bank then given bank else [] := by
    intro other
    by_cases here : other = bank
    · subst here
      rw [if_pos rfl]
      exact List.filter_eq_self.mpr fun song member => by simp [own other song member]
    · rw [if_neg here]
      exact List.filter_eq_nil_iff.mpr fun song member => by simp [own other song member, here]
  simp only [Bank.all, List.flatMap_cons, List.flatMap_nil, songsOf_append, filtered]
  cases bank <;> simp [songsOf]

/-- What a load puts in place, however far it gets. -/
theorem load_eq (s : Soundtrack) {image : Image} (there : image.isLoaded = true) :
    ∃ instruments entries loaded, (s.load image).soundtrack = {
      config := s.config
      songs := (loadSongs image s.config).value.songs
      instruments
      entries
      tableSlots := (loadSongs image s.config).value.tableSlots
      loaded
      hook := image.expandedHook? } := by
  rw [Soundtrack.load, if_neg (by simp [there])]
  simp only
  cases loadInstruments (Uploads.ofImage image .common) with
  | error e => exact ⟨_, _, _, rfl⟩
  | ok instruments =>
    simp only
    cases loadSamples (Uploads.ofImage image .common) <;> exact ⟨_, _, _, rfl⟩

theorem songs_load (s : Soundtrack) {image : Image} (there : image.isLoaded = true) :
    (s.load image).soundtrack.songs = (loadSongs image s.config).value.songs := by
  obtain ⟨instruments, entries, loaded, same⟩ := load_eq s there
  rw [same]

/-- The songs loaded for a bank are those in its table, whatever becomes of instruments and
samples. -/
theorem songsIn_load (s : Soundtrack) {image : Image} (loaded : image.isLoaded = true)
    (bank : Bank) :
    ∃ slots : List SongSlot,
      slots.map (·.address) = songAddresses image s.config bank ∧
      (s.load image).soundtrack.songsIn bank =
        slots.map fun slot => ((Uploads.ofImage image bank.uploadBank).songOrPlaceholder
          s.config.limits bank slot).value := by
  obtain ⟨slots, addresses, songs⟩ := loadedTable_songs image s.config bank
  refine ⟨slots, addresses, ?_⟩
  have own : ∀ bank, ∀ song ∈ (loadedTable image s.config bank).vanilla ++
      (loadedTable image s.config bank).custom, song.bank = bank := by
    intro bank song member
    obtain ⟨slots, -, songs⟩ := loadedTable_songs image s.config bank
    rw [songs] at member
    obtain ⟨slot, -, rfl⟩ := List.mem_map.mp member
    exact Uploads.bank_songOrPlaceholder _ _ _ _
  have vanilla := songsOf_flatMap_all (fun bank song member =>
    own bank song (List.mem_append_left (loadedTable image s.config bank).custom member)) bank
  have custom := songsOf_flatMap_all (fun bank song member =>
    own bank song (List.mem_append_right (loadedTable image s.config bank).vanilla member)) bank
  have same : (s.load image).soundtrack.songsIn bank =
      songsOf bank (s.load image).soundtrack.songs := rfl
  rw [same, songs_load s loaded, songs_loadSongs, songsOf_append, vanilla, custom, songs]

/-- Every song that is loaded comes from a slot of its bank. -/
theorem slot_of_load (s : Soundtrack) {image : Image} (loaded : image.isLoaded = true)
    {song : Song} (listed : song ∈ (s.load image).soundtrack.songs) :
    ∃ slot, ((Uploads.ofImage image song.bank.uploadBank).songOrPlaceholder s.config.limits
      song.bank slot).value = song := by
  obtain ⟨slots, -, songs⟩ := songsIn_load s loaded song.bank
  have own : song ∈ (s.load image).soundtrack.songsIn song.bank :=
    List.mem_filter.mpr ⟨listed, beq_self_eq_true _⟩
  rw [songs] at own
  obtain ⟨slot, -, read⟩ := List.mem_map.mp own
  exact ⟨slot, read⟩

/-! ### Tables of songs that follow them -/

theorem map_getD_range (words : List UInt16) (n : Nat) :
    (List.range n).map (fun i => words.getD i 0) =
      words.take n ++ List.replicate (n - words.length) 0 := by
  apply List.ext_getElem?
  intro i
  by_cases inside : i < n
  · rw [List.getElem?_map, List.getElem?_range inside, Option.map_some]
    by_cases listed : i < words.length
    · rw [List.getElem?_append_left (by rw [List.length_take]; omega), List.getElem?_take,
        if_pos inside, List.getD_eq_getElem?_getD, List.getElem?_eq_getElem listed]
      rfl
    · rw [List.getElem?_append_right (by rw [List.length_take]; omega), List.length_take,
        List.getElem?_replicate, if_pos (by omega), List.getD_eq_getElem?_getD,
        List.getElem?_eq_none (by omega)]
      rfl
  · rw [List.getElem?_eq_none (by simpa using inside), List.getElem?_eq_none]
    rw [List.length_append, List.length_take, List.length_replicate]
    omega

/-- The game's own slots and the songs behind them are the words in front of the null word; slots
that the table lacks have no place. -/
theorem gameAddresses {words : List UInt16} (filled : ∀ word ∈ words, word ≠ 0) {n limit : Nat}
    (le : n ≤ limit) :
    (List.range n).map (fun i => ((words ++ [0]).take limit).getD i 0) ++
        (((words ++ [0]).take limit).drop n).takeWhile (· != 0) =
      words.take limit ++ List.replicate (n - words.length) 0 := by
  have kept : ∀ word ∈ (words.take limit).drop n, (word != 0) = true := by
    intro word member
    simpa using filled word (List.mem_of_mem_take (List.mem_of_mem_drop member))
  have ended : ∀ m, (([0] : List UInt16).take m).takeWhile (· != 0) = [] := by
    intro m
    cases m <;> simp
  rw [map_getD_range]
  by_cases enough : n ≤ words.length
  · have long : n ≤ (words.take limit).length := by
      rw [List.length_take]
      omega
    have none : n - ((words.take limit).length + (([0] : List UInt16).take
        (limit - words.length)).length) = 0 := by omega
    rw [List.take_append, List.take_append_of_le_length long,
      List.drop_append_of_le_length long, List.takeWhile_append_of_pos kept, ended,
      List.append_nil, List.length_append, none, Nat.sub_eq_zero_of_le enough,
      List.replicate_zero, List.append_nil, List.append_nil, List.take_append_drop]
  · obtain ⟨more, left⟩ := Nat.exists_eq_add_of_le' (show 1 ≤ n - words.length by omega)
    have whole : (words ++ [0]).take limit = words ++ [0] :=
      List.take_of_length_le (by rw [List.length_append, List.length_singleton]; omega)
    have length : (words ++ [0] : List UInt16).length = words.length + 1 := by simp
    rw [whole, List.take_of_length_le (by omega), List.drop_eq_nil_of_le (by omega),
      List.take_of_length_le (by omega), length, left,
      show n - (words.length + 1) = more by omega, List.replicate_succ]
    simp

end SnesMusic
