import SnesMusic.Proofs.Soundtrack.LoadedSongs

/-!
# Numbers of table slots

A save counts the songs of each bank it writes and the null word behind their addresses. A load of
one of the game's banks counts the words of the table, as far as it is looked at; of an expansion it
counts the songs. Main statements: the numbers after a save (`tableSlots_save`), and that those
after a load of what was saved are the same for just the game's banks whose table is looked at to
its end (`tableSlots_reload`).
-/
namespace SnesMusic

namespace Soundtrack

variable {s t : Soundtrack} {image : Image} {bank : Bank}

/-- Moving songs leaves every bank as many as it had. -/
theorem Moved.length_songsIn {banks : Bank → Prop} (moved : Moved banks s t) (bank : Bank) :
    (t.songsIn bank).length = (s.songsIn bank).length := by
  have counted : ∀ r : Soundtrack, (r.songsIn bank).length =
      (r.songs.map fun song => (song.bank, song.modified)).countP (·.1 == bank) := by
    intro r
    rw [songsIn, ← List.countP_eq_length_filter, List.countP_map]
    rfl
  rw [counted, counted, moved.marks]

end Soundtrack

namespace Saving

variable {s : Saving} {bank : Bank} {banks : List Bank}

theorem tableSlots_saveSongs (ok : (saveSongs bank s).outcome = .ok ()) :
    (saveSongs bank s).soundtrack.tableSlots =
      Bank.update s.soundtrack.tableSlots bank ((s.soundtrack.songsIn bank).length + 1) := by
  have pointed : ∀ t : Saving,
      (t.writePointer bank).soundtrack.tableSlots = t.soundtrack.tableSlots := by
    intro t
    unfold writePointer
    cases bank.pointerBytes <;> rfl
  have placed := (saveSongs_ok ok).1
  rw [saveSongs_eq_of_placed placed] at ok ⊢
  obtain ⟨through, counted⟩ := andThen_ok ok
  obtain ⟨-, written⟩ := andThen_ok through
  rw [counted, written]
  simp only [savedSongs, tell, pointed]
  rfl

/-- Banks that are saved one after the other are each counted as they are saved. -/
theorem tableSlots_each_saveSongs (ok : (s.each banks saveSongs).outcome = .ok ())
    (bank : Bank) :
    (s.each banks saveSongs).soundtrack.tableSlots bank =
      if bank ∈ banks then (s.soundtrack.songsIn bank).length + 1
      else s.soundtrack.tableSlots bank := by
  induction banks generalizing s with
  | nil => rfl
  | cons first rest ih =>
    obtain ⟨done, same⟩ := each_cons_ok ok
    rw [same] at ok ⊢
    rw [ih ok, (moved_saveSongs first s).length_songsIn, tableSlots_saveSongs done]
    by_cases later : bank ∈ rest
    · rw [if_pos later, if_pos (List.mem_cons_of_mem _ later)]
    · rw [if_neg later]
      by_cases here : bank = first
      · subst here
        rw [Bank.update_same, if_pos (List.mem_cons_self ..)]
      · rw [Bank.update_of_ne _ _ here, if_neg (by simp [here, later])]

end Saving

namespace Soundtrack

variable {s : Soundtrack} {image : Image} {bank : Bank}

/-- After a save, the banks that were written have a slot for each song and one for the null
word. -/
theorem tableSlots_save (saved : (s.save image).outcome = .ok ()) (bank : Bank) :
    (s.save image).soundtrack.tableSlots bank =
      if bank ∈ s.dirtyBanks then (s.songsIn bank).length + 1 else s.tableSlots bank := by
  have written : (s.saveBanks image).outcome = .ok () := by
    rcases refused_or_checked s image with ⟨e, -, stopped⟩ | ⟨loaded, there, checked⟩
    · rw [stopped] at saved
      contradiction
    · rw [save_eq_of_check loaded there checked] at saved
      have all := (Saving.andThen_ok saved).1
      exact (Saving.andThen_ok (Saving.andThen_ok all).1).1
  rw [markSaved_of_save saved, markSaved]
  simp only
  rw [soundtrack_writeAll, saveBanks]
  exact Saving.tableSlots_each_saveSongs written bank

/-- The numbers of slots after a save and after a load of what was saved. The save counts the songs
and the null word behind their addresses, and the load does so in the game's banks, as far as their
tables are looked at; in the expansions it counts the songs alone. So the numbers agree for just the
game's banks whose null word is among the words that are looked at. -/
theorem tableSlots_reload {start fresh : Soundtrack} {original : Image}
    (loaded : (start.load original).outcome = .ok ())
    (run : SongRun (start.load original).soundtrack s)
    (saved : (s.save image).outcome = .ok ()) (dirty : bank ∈ s.dirtyBanks)
    (hook : bank.isExpansion = true → image.expandedHook?.isSome = true)
    (apart : bank = .dungeon → s.CreditsApart) (configured : fresh.config = start.config) :
    let count := (s.songsIn bank).length
    let stored := (s.save image).soundtrack.tableSlots bank
    let found := (fresh.load (s.save image).image).soundtrack.tableSlots bank
    stored = count + 1 ∧
      found = (if bank.isExpansion then min count maxExpandedSongs
        else min (count + 1) maxTableEntries) ∧
      (found = stored ↔ bank.isExpansion = false ∧ count < maxTableEntries) := by
  intro count stored found
  obtain ⟨only, config⟩ := run.songsOnly (songsOnly_load loaded)
  obtain ⟨moved, body, length, tabled, limited, -⟩ := tabled_save only saved dirty apart
  rw [config, config_load, ← configured] at limited
  have counted : stored = count + 1 := by
    rw [show stored = _ from tableSlots_save saved bank, if_pos dirty]
  have addresses := tabled.songAddresses_eq limited fun expansion =>
    (expandedHook?_save only saved).symm ▸ hook expansion
  obtain ⟨before, table⟩ := loadedTable_eq (s.save image).image fresh.config bank
  have slots : found = if bank.isExpansion then min count maxExpandedSongs
      else min (count + 1) maxTableEntries := by
    have same : found = _ := tableSlots_load fresh tabled.isLoaded bank
    rw [same, table]
    simp only
    cases own : bank.isExpansion with
    | false =>
      rw [if_neg Bool.false_ne_true, if_neg Bool.false_ne_true, tabled.tableWords_eq,
        List.length_take, List.length_append, List.length_map, length, Bank.maxSongs, own]
      exact Nat.min_comm ..
    | true =>
      rw [if_pos rfl, if_pos rfl, addresses, Bank.vanillaSlots_of_isExpansion own, Nat.zero_sub,
        List.replicate_zero, List.append_nil, List.length_take, List.length_map, length,
        Bank.maxSongs, own]
      exact Nat.min_comm ..
  refine ⟨counted, slots, ?_⟩
  rw [counted, slots]
  cases bank.isExpansion with
  | false =>
    rw [if_neg Bool.false_ne_true]
    constructor
    · intro same
      exact ⟨rfl, by omega⟩
    · rintro ⟨-, short⟩
      omega
  | true =>
    rw [if_pos rfl]
    constructor
    · intro same
      omega
    · rintro ⟨game, -⟩
      contradiction

end Soundtrack

/-! ### An example -/

/-- An image with the expanded music patch: its code jumps to another bank. -/
def patchedImage : Image :=
  { data := Image.patch creditsImage.data Image.hookOffset [0x22, 0x00, 0x80, 0x1A] }

theorem data_patchedImage :
    patchedImage.data =
      Image.patch creditsImage.data Image.hookOffset [0x22, 0x00, 0x80, 0x1A] := by
  rw [patchedImage]

theorem size_patchedImage : patchedImage.size = 0x1B0000 := by
  rw [Image.size, data_patchedImage, Image.size_patch, ← Image.size, creditsImage,
    Image.size_ofBlocks]

theorem locate_patchedImage (offset : Nat) : patchedImage.locate offset = offset := by
  rw [Image.locate, Image.headerOffset, size_patchedImage]
  rfl

theorem hooked_patchedImage : patchedImage.expandedHook?.isSome = true := by
  have jump : patchedImage.Has Image.hookOffset [0x22, 0x00, 0x80, 0x1A] := by
    intro k inside
    have total : creditsImage.size = 0x1B0000 := Image.size_ofBlocks _
    unfold Image.size at total
    rw [data_patchedImage, Image.getElem?_patch_of_inside _ _ _ inside (by rw [total]; decide)]
  have read := Image.readBytes_of_has jump (by decide)
  rw [Image.expandedHook?, locate_patchedImage, show patchedImage.readBytes Image.hookOffset 4 = _
    from read]
  rfl

theorem saves_patchedImage : (encore.save patchedImage).outcome = .ok () :=
  saves_unlooped extends_encore songs_encore fits_encore unlooped_encore size_patchedImage

/-- The one song of the expanded bank is counted with the null word when it is saved and without it
when it is loaded. -/
theorem afterword_counted :
    (encore.save patchedImage).outcome = .ok () ∧ Bank.overworldExpanded ∈ encore.dirtyBanks ∧
      (encore.songsIn .overworldExpanded).length = 1 ∧
      (encore.save patchedImage).soundtrack.tableSlots .overworldExpanded = 2 ∧
      (({} : Soundtrack).load (encore.save patchedImage).image).soundtrack.tableSlots
        .overworldExpanded = 1 := by
  have run : SongRun (({} : Soundtrack).load creditsImage).soundtrack encore :=
    .tail (.tail (.refl _) (.create _ "Encore" .credits)) (.create _ "Afterword" .overworldExpanded)
  have dirty : Bank.overworldExpanded ∈ encore.dirtyBanks := by
    rw [dirtyBanks_encore]
    decide
  have one : (encore.songsIn .overworldExpanded).length = 1 := by
    rw [Soundtrack.songsIn, songs_encore]
    decide +kernel
  obtain ⟨stored, found, -⟩ := Soundtrack.tableSlots_reload loads_creditsImage run
    saves_patchedImage dirty (fun _ => hooked_patchedImage)
    (fun dungeon => absurd dungeon (by decide)) (show ({} : Soundtrack).config = _ from rfl)
  rw [one] at stored found
  exact ⟨saves_patchedImage, dirty, one, stored, found⟩

end SnesMusic
