import SnesMusic.Proofs.Soundtrack.FailedSave

/-!
# Numbers of songs

How many songs of a bank come back from an image that they were saved to. Saving bounds the bytes
of a bank and loading the entries of its table that are looked at, and the two bounds do not agree:
songs behind the entries that are looked at are saved but not loaded. Main statements: the table of
a bank that was saved stands in the image, whatever the capacities of the banks are
(`tabled_save`), and of the songs saved for a bank as many are loaded as its table is looked at for
(`songCount_reload`).
-/
namespace SnesMusic

open LittleEndian

/-! ### Tables in the way of other banks -/

/-- A song takes no fewer bytes than its entry in the table. -/
theorem length_mul_two_le_songsSpace {songs : List Song} {total : Nat}
    (space : songsSpace songs = .ok total) : songs.length * 2 ≤ total := by
  induction songs generalizing total with
  | nil => exact Nat.zero_le _
  | cons song rest ih =>
    obtain ⟨size, others, own, later, sum⟩ := songsSpace_cons_ok space
    have some_ := Song.two_le_requiredSpace own
    have behind := ih later
    rw [List.length_cons]
    omega

/-- However large the blocks are, that of the second bank does not reach the table of the first,
which takes no more than half of its room. The credits may reach over the dungeon's block. -/
def Bank.Spares (first second : Bank) : Prop :=
  first.offset + (Block.headerSize + (first.room / 2 + 1)) ≤ second.offset ∨
    second.offset + (second.room + 2 * Block.headerSize) ≤ first.offset ∨
    first = .dungeon ∧ second = .credits

instance (first second : Bank) : Decidable (Bank.Spares first second) :=
  inferInstanceAs (Decidable (_ ∨ _))

theorem Bank.pairwise_spares : Bank.all.Pairwise Bank.Spares := by decide

namespace Saving

variable {bank : Bank} {s : Saving}

/-- A table takes no more than half of its bank's room. -/
theorem length_table_le {size : Nat} (sized : s.soundtrack.payloadSize bank = .ok size)
    (room : size ≤ bank.room) :
    ((s.soundtrack.songsIn bank).length + 1) * 2 ≤ bank.room / 2 + 1 := by
  obtain ⟨total, space, sum⟩ := payloadSize_ok sized
  have songs := length_mul_two_le_songsSpace space
  have same : s.soundtrack.songsIn bank = songsOf bank s.soundtrack.songs := rfl
  rw [same]
  omega

/-- What is saved to other banks does not reach the table of a bank that spares it. -/
theorem agree_each_saveSongs {later : List Bank} (ok : (s.each later saveSongs).outcome = .ok ())
    (distinct : later.Nodup) {count : Nat} (count_le : (count + 1) * 2 ≤ bank.room / 2 + 1)
    (spared : ∀ other ∈ later, ∀ size, s.soundtrack.payloadSize other = .ok size →
      bank.offset + (Block.headerSize + (bank.room / 2 + 1)) ≤ other.offset ∨
        other.offset + (size + 2 * Block.headerSize) ≤ bank.offset) :
    (s.each later saveSongs).image.Agree s.image (s.image.locate bank.offset)
      (s.image.locate bank.offset + (Block.headerSize + (count + 1) * 2)) := by
  refine (frame_each_saveSongs ok distinct).agree ?_
  have above := bank.offset_ge
  rintro i low high ⟨other, listed, size, sized, taken⟩
  rw [Image.locate] at low high
  rcases taken with ⟨start, stop⟩ | ⟨place, known, byte⟩
  · rcases spared other listed size sized with before | behind <;> omega
  · obtain ⟨_, _, _⟩ := Bank.pointerBytes_lt known
    omega

end Saving

namespace Soundtrack

variable {s : Soundtrack} {image : Image}

/-- The block of a bank that has been checked stays off the first bytes of another, if its room
does or it is the credits' and they end in front of the dungeon's block. -/
theorem spares_payload {first second : Bank} {length : Nat}
    (spares : first.offset + (Block.headerSize + length) ≤ second.offset ∨
      second.offset + (second.room + 2 * Block.headerSize) ≤ first.offset ∨
      first = .dungeon ∧ second = .credits)
    (dirty : second ∈ s.dirtyBanks) (checked : s.checkBank second = .ok ())
    (apart : first = .dungeon → s.CreditsApart) {size : Nat}
    (sized : s.payloadSize second = .ok size) :
    first.offset + (Block.headerSize + length) ≤ second.offset ∨
      second.offset + (size + 2 * Block.headerSize) ≤ first.offset := by
  obtain ⟨same, own, -, below⟩ := checkBank_ok checked
  rw [sized, Except.ok.injEq] at own
  rcases spares with front | behind | ⟨rfl, rfl⟩
  · exact Or.inl front
  · exact Or.inr (by omega)
  · exact Or.inr (apart rfl dirty size sized)

/-- The table of a bank that was saved stands in the image, with the addresses its songs got. -/
theorem tabled_save (only : s.SongsOnly) (saved : (s.save image).outcome = .ok ()) {bank : Bank}
    (dirty : bank ∈ s.dirtyBanks) (apart : bank = .dungeon → s.CreditsApart) :
    ∃ (moved : List Song) (body : List UInt8), moved.length = (s.songsIn bank).length ∧
      Tabled bank (s.save image).image (moved.map Song.address) body ∧
      (tableBytes (moved.map Song.address) body).length ≤ s.config.limit bank ∧
      (s.save image).soundtrack.songsIn bank = moved.map Song.saved := by
  obtain ⟨checked, done, written, after⟩ := save_ok only saved
  have fits := checkBank_of_check checked
  obtain ⟨before, later, turn⟩ := Saving.exists_turn done s.nodup_dirtyBanks dirty
  obtain ⟨fresh, distinct⟩ := turn.nodup_later s.nodup_dirtyBanks
  have spares := (List.pairwise_cons.mp ((Bank.pairwise_spares.filter s.isDirty).sublist
    turn.tail.sublist)).1
  have listed : before.soundtrack.songsIn bank = s.songsIn bank := turn.songs
  obtain ⟨size, needed, limited, room⟩ := checkBank_ok (fits bank dirty)
  have sized := turn.payloadSize_before.trans needed
  have fitting : Fits (fun bank => min (s.config.limit bank) bank.room) bank
      before.soundtrack.songs := fits_of_payloadSize sized (Nat.le_min.mpr ⟨limited, room⟩)
  obtain ⟨body, placed, short, has⟩ := Saving.wrote_saveSongs turn.saved fitting
  obtain ⟨limited, inside⟩ := Nat.le_min.mp short
  have tabled := placed.tabled has inside
  have count := placed.length_eq
  have agree := Saving.agree_each_saveSongs turn.finished distinct
    (Saving.length_table_le sized room) fun other member size computed => by
      -- what is saved later does not reach the table
      have there := turn.mem_of_later member
      rw [turn.kept other member] at computed
      exact spares_payload (spares other member) there (fits other there) apart computed
  have addresses : ((songsOf bank (Saving.saveSongs bank before).soundtrack.songs).map
      Song.address).length = (before.soundtrack.songsIn bank).length :=
    (List.length_map _).trans count
  rw [← addresses] at agree
  obtain ⟨overwritten, same, stands⟩ := tabled.of_agree agree
  refine ⟨songsOf bank (Saving.saveSongs bank before).soundtrack.songs, overwritten,
    count.trans (congrArg _ listed), ?_, ?_, ?_⟩
  · rw [written, saveBanks, turn.through]
    exact stands
  · rw [length_tableBytes, same, ← length_tableBytes]
    exact limited
  · rw [after, songsIn, markSaved, List.filter_map, saveBanks, turn.through]
    exact congrArg (List.map _) (Saving.songs_each_saveSongs turn.finished fresh)

/-- A bank has at least the game's own songs when it is loaded. -/
theorem vanillaSlots_le_load {start : Soundtrack} (loaded : (start.load image).outcome = .ok ())
    (bank : Bank) : bank.vanillaSlots ≤ ((start.load image).soundtrack.songsIn bank).length := by
  obtain ⟨slots, addresses, songs⟩ := songsIn_load start (load_ok loaded).1 bank
  have count := congrArg List.length addresses
  rw [songs, List.length_map]
  rw [List.length_map, songAddresses] at count
  cases own : bank.isExpansion with
  | false =>
    simp only [own, Bool.false_eq_true, if_false, List.length_append, List.length_map,
      List.length_range] at count
    omega
  | true =>
    rw [Bank.vanillaSlots_of_isExpansion own]
    exact Nat.zero_le _

/-- Additions take no song from a bank. -/
theorem Extends.length_songsIn_le {start : Soundtrack} (more : start.Extends s) (bank : Bank) :
    (start.songsIn bank).length ≤ (s.songsIn bank).length := by
  obtain ⟨added, songs⟩ := more.songs
  rw [songsIn, songsIn, songs, List.filter_append, List.length_append]
  exact Nat.le_add_right _ _

/-- After songs have been added to what was loaded, a save and a load bring back the songs of a bank
that was saved up to the number that its table is looked at for: as many as there were exactly where
there are no more than that. -/
theorem songCount_reload {start : Soundtrack} {original : Image} {bank : Bank}
    (loaded : (start.load original).outcome = .ok ())
    (added : SongAdditions (start.load original).soundtrack s)
    (saved : (s.save image).outcome = .ok ()) (dirty : bank ∈ s.dirtyBanks)
    (hook : bank.isExpansion = true → image.expandedHook?.isSome = true)
    (apart : bank = .dungeon → s.CreditsApart)
    {fresh : Soundtrack} (configured : fresh.config = start.config) :
    ((s.save image).soundtrack.songsIn bank).length = (s.songsIn bank).length ∧
      ((fresh.load (s.save image).image).soundtrack.songsIn bank).length =
        min (s.songsIn bank).length bank.maxSongs := by
  obtain ⟨-, only, config, -⟩ := added.extends_start.of_load loaded
  obtain ⟨moved, body, count, tabled, limited, kept⟩ := tabled_save only saved dirty apart
  rw [config, ← configured] at limited
  have enough := Nat.le_trans (vanillaSlots_le_load loaded bank)
    (added.extends_start.length_songsIn_le bank)
  have addresses := tabled.songAddresses_eq limited fun expansion =>
    (expandedHook?_save only saved).symm ▸ hook expansion
  obtain ⟨slots, same, songs⟩ := songsIn_load fresh tabled.isLoaded bank
  have length := congrArg List.length (same.trans addresses)
  rw [List.length_append, List.length_take, List.length_replicate, List.length_map,
    List.length_map, count] at length
  refine ⟨by rw [kept, List.length_map, count], ?_⟩
  rw [songs, List.length_map, length]
  omega

end Soundtrack

/-! ### An example -/

/-- Creates songs in a bank. -/
def createSongs (s : Soundtrack) (bank : Bank) (names : List String) : Soundtrack :=
  names.foldl (fun s name => s.createSong name bank) s

theorem additions_createSongs {start s : Soundtrack} (bank : Bank) (names : List String)
    (before : SongAdditions start s) :
    SongAdditions start (createSongs s bank names) ∧ (createSongs s bank names).songs =
      s.songs ++ names.map fun name => { Song.new name bank with modified := true } := by
  have added := additions_addSongs (names.map (Song.new · bank)) before
  rw [List.foldl_map, List.map_map] at added
  exact added

/-- The soundtrack of the image with a song added to the credits and 45 to the dungeon, which has 20
of its own. -/
def crowd : Soundtrack :=
  createSongs ((({} : Soundtrack).load creditsImage).soundtrack.createSong "Encore" .credits)
    .dungeon (List.replicate 45 "Cavern")

def crowdSongs : List Song :=
  creditsSongs ++ [{ Song.new "Encore" .credits with modified := true }] ++
    (List.replicate 45 "Cavern").map fun name => { Song.new name .dungeon with modified := true }

theorem additions_crowd : SongAdditions (({} : Soundtrack).load creditsImage).soundtrack crowd :=
  (additions_createSongs _ _ (SongAdditions.none.create "Encore" .credits)).1

theorem songs_crowd : crowd.songs = crowdSongs := by
  have begun : SongAdditions (({} : Soundtrack).load creditsImage).soundtrack _ :=
    SongAdditions.none.create "Encore" .credits
  rw [crowd, (additions_createSongs .dungeon _ begun).2, crowdSongs, ← songs_creditsImage]
  rfl

theorem fits_crowd (bank : Bank) :
    (({ songs := crowdSongs } : Soundtrack).checkBank bank).toOption = some () := by
  cases bank <;> decide +kernel

/-- Both banks are saved: the additions fit, and no song loops. -/
theorem saves_crowd :
    (crowd.save creditsImage).outcome = .ok () ∧ crowd.dirtyBanks = [.dungeon, .credits] ∧
      crowd.CreditsApart := by
  obtain ⟨-, -, -, banks, limited⟩ :=
    checks_creditsImage additions_crowd.extends_start songs_crowd fits_crowd
  refine ⟨?_, ?_, ?_⟩
  · exact saves_unlooped additions_crowd.extends_start songs_crowd fits_crowd
      (by decide +kernel) (Image.size_ofBlocks _)
  · rw [banks]
    decide +kernel
  · have dirty : Bank.dungeon ∈ crowd.dirtyBanks := by
      rw [banks]
      decide +kernel
    exact (Soundtrack.BlockApart.of_default limited dirty).credits rfl

/-- The 65 songs of the dungeon fit its capacity and are saved, but its table is looked at for 64:
the last song is not loaded again. -/
theorem crowd_loses_song :
    SongAdditions (({} : Soundtrack).load creditsImage).soundtrack crowd ∧
      (crowd.save creditsImage).outcome = .ok () ∧ Bank.dungeon ∈ crowd.dirtyBanks ∧
      crowd.CreditsApart ∧ (crowd.songsIn .dungeon).length = 65 ∧
      ((crowd.save creditsImage).soundtrack.songsIn .dungeon).length = 65 ∧
      ((({} : Soundtrack).load (crowd.save creditsImage).image).soundtrack.songsIn
        .dungeon).length = 64 := by
  obtain ⟨saved, banks, apart⟩ := saves_crowd
  have count : (crowd.songsIn .dungeon).length = 65 := by
    rw [Soundtrack.songsIn, songs_crowd]
    decide +kernel
  have dirty : Bank.dungeon ∈ crowd.dirtyBanks := by rw [banks]; decide
  obtain ⟨kept, reloaded⟩ := Soundtrack.songCount_reload loads_creditsImage additions_crowd saved
    dirty (by decide) (fun _ => apart) (show ({} : Soundtrack).config = _ from rfl)
  rw [count] at kept reloaded
  exact ⟨additions_crowd, saved, dirty, apart, count, kept, reloaded⟩

end SnesMusic
