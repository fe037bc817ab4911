import SnesMusic.Proofs.Assembly.Labels
import SnesMusic.Proofs.Soundtrack.Reload
import SnesMusic.Soundtrack.Edit

/-!
# Songs put back in their places

A song that was written as text is put back by its name. Main statement: the text of a loaded song
finds the song it came from just where the song's name is a label, and is added as another song
where it is not (`place_exported`).
-/
namespace SnesMusic

open Assembly Text

/-! ### Names of loaded songs -/

/-- What the songs after those of the game are called, apart from their number. -/
def numberedKinds : List String := ["Custom", "Expanded", "Auxiliary"]

/-- The names that songs are loaded with. -/
inductive LoadedName : String → Prop
  | vanilla {name : String} (listed : name ∈ vanillaSongs.map (·.1)) : LoadedName name
  | numbered {kind : String} (listed : kind ∈ numberedKinds) (number : Nat) :
      LoadedName (kind ++ " Song " ++ toString number)

theorem Uploads.name_songOrPlaceholder (u : Uploads) (limits : Limits) (bank : Bank)
    (slot : SongSlot) : (u.songOrPlaceholder limits bank slot).value.name = slot.name := by
  unfold Uploads.songOrPlaceholder
  split
  · rfl
  · simp only
    split <;> rfl

theorem loadedName_vanillaSongSlots (bank : Bank) (entries : List UInt16) :
    ∀ slot ∈ vanillaSongSlots bank entries, LoadedName slot.name := by
  intro slot member
  have names : ∀ first last, bank.songRange = some (first, last) →
      ∀ i : Fin (last + 1 - first),
        ((vanillaSong? (first + i)).map (·.1)).getD "Unknown" ∈ vanillaSongs.map (·.1) := by
    intro first last range
    cases bank <;> simp only [Bank.songRange, Option.some.injEq, Prod.mk.injEq, reduceCtorEq]
      at range <;> obtain ⟨rfl, rfl⟩ := range <;> decide
  unfold vanillaSongSlots at member
  cases range : bank.songRange with
  | none => simp [range] at member
  | some place =>
    obtain ⟨first, last⟩ := place
    simp only [range, List.mem_map, List.mem_range] at member
    obtain ⟨i, inside, rfl⟩ := member
    exact .vanilla (names first last range ⟨i, inside⟩)

theorem loadedName_furtherSongSlots (image : Image) (config : Config) (bank : Bank)
    (before : Nat) : ∀ slot ∈ furtherSongSlots image config bank before, LoadedName slot.name := by
  intro slot member
  unfold furtherSongSlots at member
  split at member
  · rename_i own
    obtain ⟨⟨address, number⟩, -, rfl⟩ := List.mem_map.mp member
    cases bank with
    | overworldExpanded => exact @LoadedName.numbered "Expanded" (by decide) number
    | auxiliary => exact @LoadedName.numbered "Auxiliary" (by decide) number
    | _ => simp [Bank.isExpansion] at own
  · obtain ⟨⟨address, number⟩, -, rfl⟩ := List.mem_map.mp member
    exact @LoadedName.numbered "Custom" (by decide) number

/-- Every song of a loaded table has a name of its kind and at least one segment. -/
theorem named_loadedTable (image : Image) (config : Config) (bank : Bank) :
    ∀ song ∈ (loadedTable image config bank).vanilla ++ (loadedTable image config bank).custom,
      LoadedName song.name ∧ song.segments ≠ [] := by
  intro song member
  obtain ⟨before, table⟩ := loadedTable_eq image config bank
  rw [table, ← List.map_append] at member
  obtain ⟨slot, listed, rfl⟩ := List.mem_map.mp member
  rw [Uploads.name_songOrPlaceholder]
  refine ⟨?_, Uploads.segmented_songOrPlaceholder _ _ _ _⟩
  rcases List.mem_append.mp listed with own | further
  · exact loadedName_vanillaSongSlots bank _ slot own
  · exact loadedName_furtherSongSlots image config bank before slot further

/-- What holds of every song that is loaded. -/
theorem named_load {s : Soundtrack} {image : Image} (loaded : (s.load image).outcome = .ok ()) :
    ∀ song ∈ (s.load image).soundtrack.songs, LoadedName song.name ∧ song.segments ≠ [] := by
  intro song member
  rw [songs_load s (Soundtrack.load_ok loaded).1, songs_loadSongs, List.mem_append] at member
  rcases member with own | custom
  · obtain ⟨bank, -, listed⟩ := List.mem_flatMap.mp own
    exact named_loadedTable image s.config bank song (List.mem_append_left _ listed)
  · obtain ⟨bank, -, listed⟩ := List.mem_flatMap.mp custom
    exact named_loadedTable image s.config bank song (List.mem_append_right _ listed)

/-! ### Labels of loaded names -/

namespace LoadedName

theorem single {name : String} (loaded : LoadedName name) : '\n' ∉ name.toList := by
  cases loaded with
  | vanilla listed =>
    have all : ∀ name ∈ vanillaSongs.map (·.1), '\n' ∉ name.toList := by decide
    exact all name listed
  | numbered listed number =>
    have all : ∀ kind ∈ numberedKinds, '\n' ∉ (kind ++ " Song ").toList := by decide
    rw [String.toList_append, List.mem_append, not_or]
    exact ⟨all _ listed, (isName_toString number).isWord.not_mem (by decide)⟩

/-- The label of a numbered name begins with the same letters as the name. -/
theorem take_songLabel {kind : String} (listed : kind ∈ numberedKinds) (number : Nat) :
    (songLabel (kind ++ " Song " ++ toString number)).toList.take 5 = kind.toList.take 5 := by
  have letters : ∀ kind ∈ numberedKinds, kind.toList.filter isLabelChar = kind.toList ∧
      5 ≤ kind.toList.length ∧ kind.toList.head?.any Char.isDigit = false := by decide
  obtain ⟨whole, long, letter⟩ := letters kind listed
  have kept : (kind ++ " Song " ++ toString number).toList.filter isLabelChar =
      kind.toList ++ (" Song ".toList ++ (toString number).toList).filter isLabelChar := by
    rw [String.toList_append, String.toList_append, List.append_assoc, List.filter_append, whole]
  cases text : kind.toList with
  | nil => simp [text] at long
  | cons first rest =>
    rw [text] at kept letter long
    have other : ¬first.isDigit = true := Bool.eq_false_iff.mp letter
    rw [songLabel, kept]
    simp only [List.cons_append]
    rw [if_neg other, String.toList_ofList, ← List.cons_append, List.take_append_of_le_length long]

/-- No loaded song is called by the label of another. -/
theorem eq_of_songLabel {name other : String} (loaded : LoadedName name) (also : LoadedName other)
    (same : other = songLabel name) : other = name := by
  cases also with
  | numbered listed number =>
    have blank : ' ' ∈ (songLabel name).toList := by
      rw [← same, String.toList_append, String.toList_append]
      simp
    exact absurd ((isName_songLabel name).2 ' ' blank) (by decide)
  | vanilla game =>
    cases loaded with
    | vanilla listed =>
      have all : ∀ name ∈ vanillaSongs.map (·.1), ∀ other ∈ vanillaSongs.map (·.1),
          other = songLabel name → other = name := by decide +kernel
      exact all name listed other game same
    | numbered listed number =>
      have all : ∀ other ∈ vanillaSongs.map (·.1), ∀ kind ∈ numberedKinds,
          other.toList.take 5 ≠ kind.toList.take 5 := by decide +kernel
      exact absurd (same ▸ take_songLabel listed number) (all _ game _ listed)

end LoadedName

/-! ### Placement -/

namespace Soundtrack

variable {s : Soundtrack}

/-- A song is put into the place of the only one with its name. -/
theorem placeSong_of_found {song old : Song} {i : Nat} (found : s.songs[i]? = some old)
    (named : old.name = song.name)
    (unique : ∀ j other, s.songs[j]? = some other → other.name = song.name → j = i) :
    ∃ placed, s.placeSong song true = .ok placed ∧ placed.index = i ∧
      placed.soundtrack.songs = s.songs.set i
        { song with bank := old.bank, address := old.address, modified := true } := by
  obtain ⟨inside, here⟩ := List.getElem?_eq_some_iff.mp found
  have first : s.indexOfName? song.name = some i := by
    rw [indexOfName?, List.findIdx?_eq_some_iff_getElem]
    refine ⟨inside, by rw [here, named]; exact beq_self_eq_true _, fun j before same => ?_⟩
    have only := unique j s.songs[j] (List.getElem?_eq_getElem _) (beq_iff_eq.mp same)
    omega
  have there : s.song? i = .ok old := by rw [song?, found]
  rw [placeSong, if_pos rfl, first]
  simp only [replaceSong, updateSong, there, bind, Except.bind, pure, Except.pure]
  exact ⟨_, rfl, rfl, rfl⟩

/-- A song with a new name is added. -/
theorem placeSong_of_new {song : Song}
    (new : ∀ other ∈ s.songs, other.name ≠ song.name) :
    s.placeSong song true = .ok {
      index := s.songs.length
      replaced := false
      soundtrack := s.addSong song } := by
  have absent : s.indexOfName? song.name = none := by
    rw [indexOfName?, List.findIdx?_eq_none_iff]
    exact fun other member => beq_eq_false_iff_ne.mpr (new other member)
  rw [placeSong, if_pos rfl, absent]

/-- The text of a loaded song can always be read, and what is read replaces the song it came from
just where the name is its own label: letters, digits and underscores that do not begin with a
digit. Under any other name the song that is read has the label for a name, which no loaded song
has, and is added. -/
theorem place_exported {image : Image} (loaded : (s.load image).outcome = .ok ()) {i : Nat}
    {song : Song} (found : (s.load image).soundtrack.songs[i]? = some song)
    (unique : ∀ j other, (s.load image).soundtrack.songs[j]? = some other →
      other.name = song.name → j = i) :
    ∃ imported placed,
      (importSong (exportSong song {}) { bank := song.bank }).outcome = .ok imported ∧
      (s.load image).soundtrack.placeSong imported.song true = .ok placed ∧
      (songLabel song.name = song.name → placed.index = i ∧
        placed.soundtrack.songs.length = (s.load image).soundtrack.songs.length) ∧
      (songLabel song.name ≠ song.name →
        placed.index = (s.load image).soundtrack.songs.length ∧
        placed.soundtrack.songs.length = (s.load image).soundtrack.songs.length + 1) := by
  have member : song ∈ (s.load image).soundtrack.songs := List.mem_of_getElem? found
  obtain ⟨named, segmented⟩ := named_load loaded song member
  obtain ⟨imported, read, name⟩ :=
    name_importSong { bank := song.bank } rfl named.single segmented
  by_cases own : songLabel song.name = song.name
  · have same : song.name = imported.song.name := (name.trans own).symm
    rw [same] at unique
    obtain ⟨placed, put, index, songs⟩ := placeSong_of_found found same unique
    refine ⟨imported, placed, read, put, fun _ => ⟨index, ?_⟩, fun other => absurd own other⟩
    rw [songs, List.length_set]
  · have new : ∀ other ∈ (s.load image).soundtrack.songs, other.name ≠ imported.song.name := by
      intro other listed same
      have equal := named.eq_of_songLabel (named_load loaded other listed).1 (same.trans name)
      exact own (name.symm.trans (same.symm.trans equal))
    refine ⟨imported, _, read, placeSong_of_new new, fun same => absurd same own,
      fun _ => ⟨rfl, ?_⟩⟩
    exact List.length_append

end Soundtrack

/-! ### An example -/

theorem unique_of_nodup {songs : List Song} (distinct : (songs.map (·.name)).Nodup) {i : Nat}
    {song : Song} (found : songs[i]? = some song) :
    ∀ j other, songs[j]? = some other → other.name = song.name → j = i := by
  intro j other there same
  have inside : j < (songs.map (·.name)).length := by
    rw [List.length_map]
    exact (List.getElem?_eq_some_iff.mp there).1
  refine (List.getElem?_inj inside distinct).mp ?_
  rw [List.getElem?_map, List.getElem?_map, there, found, Option.map_some, Option.map_some, same]

theorem distinct_creditsSongs : (creditsSongs.map (·.name)).Nodup := by decide +kernel

theorem title_song_replaced :
    ∃ imported placed,
      (importSong (exportSong (Song.new "Title" .overworld) {}) {}).outcome = .ok imported ∧
      (({} : Soundtrack).load creditsImage).soundtrack.placeSong imported.song true =
        .ok placed ∧
      placed.index = 0 ∧ placed.soundtrack.songs.length = 34 := by
  have found : (({} : Soundtrack).load creditsImage).soundtrack.songs[0]? =
      some (Song.new "Title" .overworld) := by
    rw [songs_creditsImage]
    decide +kernel
  have unique := unique_of_nodup (songs_creditsImage ▸ distinct_creditsSongs) found
  obtain ⟨imported, placed, read, put, own, -⟩ :=
    Soundtrack.place_exported loads_creditsImage found unique
  obtain ⟨index, kept⟩ := own (by decide)
  refine ⟨imported, placed, read, put, index, ?_⟩
  rw [kept, songs_creditsImage]
  decide +kernel

/-- A name with a blank is not found again: the song comes back as `LightWorld` and is added. -/
theorem light_world_not_replaced :
    ¬∀ (s : Soundtrack) (image : Image) (i : Nat) (song : Song),
      (s.load image).outcome = .ok () → (s.load image).soundtrack.songs[i]? = some song →
      (∀ j other, (s.load image).soundtrack.songs[j]? = some other →
        other.name = song.name → j = i) →
      ∃ imported placed,
        (importSong (exportSong song {}) { bank := song.bank }).outcome = .ok imported ∧
        (s.load image).soundtrack.placeSong imported.song true = .ok placed ∧
        placed.index = i ∧
        placed.soundtrack.songs.length = (s.load image).soundtrack.songs.length := by
  intro all
  have found : (({} : Soundtrack).load creditsImage).soundtrack.songs[1]? =
      some (Song.new "Light World" .overworld) := by
    rw [songs_creditsImage]
    decide +kernel
  obtain ⟨imported, placed, read, put, index, -⟩ := all {} creditsImage 1 _ loads_creditsImage found
    (unique_of_nodup (songs_creditsImage ▸ distinct_creditsSongs) found)
  have renamed : songLabel "Light World" = "LightWorld" := by decide +kernel
  have single : '\n' ∉ (Song.new "Light World" .overworld).name.toList := by decide
  obtain ⟨again, reread, name⟩ :=
    name_importSong { bank := .overworld } rfl single (List.cons_ne_nil _ _)
  obtain rfl : imported = again := Except.ok.inj (read.symm.trans reread)
  have label : imported.song.name = "LightWorld" := name.trans renamed
  have new : ∀ other ∈ (({} : Soundtrack).load creditsImage).soundtrack.songs,
      other.name ≠ imported.song.name := by
    have absent : ∀ name ∈ creditsSongs.map (·.name), name ≠ "LightWorld" := by decide +kernel
    rw [songs_creditsImage, label]
    exact fun other listed => absent _ (List.mem_map_of_mem listed)
  rw [Soundtrack.placeSong_of_new new] at put
  obtain rfl := Except.ok.inj put
  simp only at index
  rw [songs_creditsImage] at index
  exact absurd index (by decide +kernel)

end SnesMusic
