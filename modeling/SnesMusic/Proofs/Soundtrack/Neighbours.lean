import SnesMusic.Proofs.Soundtrack.FailedSave

/-!
# Neighbouring banks

What saving some banks does to the others. The capacity of a bank leaves room for the block and the
end of its chain in front of the next bank, but for the expanded one: its block may take all bytes
up to the auxiliary bank, and the end of the chain then covers the header of the block there. Main
statement: a save leaves the banks alone that it does not save, apart from the bytes of the
auxiliary bank that the end of the expanded bank's chain covers, which become zero
(`neighbours_kept`).
-/
namespace SnesMusic

open LittleEndian

/-- Banks lie apart, the end of the first one's chain included, but for the expanded bank in front
of the auxiliary one. -/
theorem Bank.apart_of_ne {saved other : Bank} (ne : other ≠ saved)
    (elsewhere : ¬(saved = .overworldExpanded ∧ other = .auxiliary)) :
    saved.offset + (saved.defaultLimit + 2 * Block.headerSize) ≤ other.offset ∨
      other.offset + (Block.headerSize + other.defaultLimit) ≤ saved.offset := by
  revert ne elsewhere
  cases saved <;> cases other <;> decide

/-- What saving a bank writes does not belong to another bank, but for the expanded bank in front of
the auxiliary one. -/
theorem Bank.Holds.not_takes {saved other : Bank} {size header i : Nat}
    (held : other.Holds header i) (le : size ≤ saved.defaultLimit) (ne : other ≠ saved)
    (elsewhere : ¬(saved = .overworldExpanded ∧ other = .auxiliary)) :
    ¬saved.Takes size header i := by
  obtain ⟨low, high⟩ := held
  have above := other.offset_ge
  rintro (⟨start, stop⟩ | ⟨place, known, byte⟩)
  · rcases Bank.apart_of_ne ne elsewhere with before | behind <;> omega
  · obtain ⟨_, _, _⟩ := Bank.pointerBytes_lt known
    omega

/-- Zeros stand behind the block of a bank that was saved. -/
theorem Saving.zero_of_chainEnd {bank : Bank} {s : Saving}
    (ok : (saveSongs bank s).outcome = .ok ()) {size : Nat}
    (sized : s.soundtrack.payloadSize bank = .ok size) {i : Nat}
    (low : s.image.headerOffset + bank.offset + (size + Block.headerSize) ≤ i)
    (high : i < s.image.headerOffset + bank.offset + (size + 2 * Block.headerSize)) :
    (saveSongs bank s).image.data[i]? = some 0 := by
  have length := length_blockPayload_eq (saveSongs_ok ok).1 sized
  have zeros := (has_saveSongs ok).right
  rw [Image.locate, headerOffset_saveSongs ok, Block.length_encode, length,
    show ([0, 0, 0, 0] : List UInt8) = List.replicate 4 0 from rfl] at zeros
  unfold Block.headerSize at low high zeros
  rw [zeros.getElem? (by omega) (by rw [List.length_replicate]; omega), List.getElem?_replicate,
    if_pos (by omega)]

namespace Soundtrack

/-- Saving the expanded bank, the end of its chain reaches over the offset. -/
def Reaches (s : Soundtrack) (header i : Nat) : Prop :=
  Bank.overworldExpanded ∈ s.dirtyBanks ∧
    ∃ size, s.payloadSize .overworldExpanded = .ok size ∧
      i < header + Bank.overworldExpanded.offset + (size + 2 * Block.headerSize)

variable {s : Soundtrack} {image : Image}

/-- The end of the expanded bank's chain stands behind its block, unless the auxiliary bank is saved
over it. -/
theorem chainEnd_kept (only : s.SongsOnly)
    (le : ∀ bank, s.config.limit bank ≤ bank.defaultLimit) (saved : (s.save image).outcome = .ok ())
    (clean : Bank.auxiliary ∉ s.dirtyBanks) {i : Nat}
    (held : Bank.auxiliary.Holds image.headerOffset i) (reached : s.Reaches image.headerOffset i) :
    (s.save image).image.data[i]? = some 0 := by
  obtain ⟨dirty, size, sized, below⟩ := reached
  obtain ⟨checked, done, written, -⟩ := save_ok only saved
  obtain ⟨before, later, turn⟩ := Saving.exists_turn done s.nodup_dirtyBanks dirty
  obtain ⟨fresh, distinct⟩ := turn.nodup_later s.nodup_dirtyBanks
  have own := turn.payloadSize_before.trans sized
  -- banks that are saved later do not reach the offset
  have kept : (s.save image).image.data[i]? =
      (Saving.saveSongs .overworldExpanded before).image.data[i]? := by
    rw [written, saveBanks, turn.through]
    refine (Saving.frame_each_saveSongs turn.finished distinct).data i ?_
    rintro ⟨other, listed, needed, computed, taken⟩
    have member := turn.mem_of_later listed
    rw [turn.kept other listed] at computed
    rw [Saving.headerOffset_saveSongs turn.saved, turn.header] at taken
    refine held.not_takes (payloadSize_le_default checked le member computed) ?_ ?_ taken
    · exact fun same => clean (same ▸ member)
    · exact fun same => fresh (same.1 ▸ listed)
  have room := payloadSize_le_default checked le dirty sized
  have place : Bank.auxiliary.offset =
      Bank.overworldExpanded.offset + (Block.headerSize + Bank.overworldExpanded.defaultLimit) := by
    decide
  have header : before.image.headerOffset = image.headerOffset := turn.header
  obtain ⟨low, -⟩ := held
  rw [kept]
  exact Saving.zero_of_chainEnd turn.saved own (by omega) (by omega)

/-- A save leaves the banks alone that it does not save, apart from the bytes of the auxiliary bank
that the end of the expanded bank's chain covers; these become zero. -/
theorem neighbours_kept (only : s.SongsOnly)
    (le : ∀ bank, s.config.limit bank ≤ bank.defaultLimit) (saved : (s.save image).outcome = .ok ())
    {bank : Bank} (clean : bank ∉ s.dirtyBanks) {i : Nat}
    (held : bank.Holds image.headerOffset i) :
    (¬(bank = .auxiliary ∧ s.Reaches image.headerOffset i) →
        (s.save image).image.data[i]? = image.data[i]?) ∧
      (bank = .auxiliary → s.Reaches image.headerOffset i →
        (s.save image).image.data[i]? = some 0) := by
  constructor
  · intro untouched
    refine (takes_save only saved).data i ?_
    rintro ⟨other, dirty, size, sized, taken⟩
    have short := payloadSize_le_default (save_ok only saved).1 le dirty sized
    by_cases expanded : other = .overworldExpanded ∧ bank = .auxiliary
    · obtain ⟨rfl, rfl⟩ := expanded
      rcases taken with ⟨-, stop⟩ | ⟨place, known, -⟩
      · exact untouched ⟨rfl, dirty, size, sized, stop⟩
      · simp [Bank.pointerBytes] at known
    · exact held.not_takes short (fun same => clean (same ▸ dirty)) expanded taken
  · rintro rfl reached
    exact chainEnd_kept only le saved clean held reached

end Soundtrack

/-! ### An example -/

/-- A song of silent segments in the expanded bank. -/
def silentSong (count : Nat) : Song := {
  Song.new "Silence" .overworldExpanded with
  segments := List.replicate count Segment.silent
  modified := true }

/-- It takes its header and its channel tables. -/
theorem requiredSpace_silentSong (count : Nat) :
    (silentSong count).requiredSpace = .ok (18 * count + 2) := by
  have empty : ∀ tracks : List Track, (∀ track ∈ tracks, track = .silent) →
      tracksSpace tracks = .ok 0 := by
    intro tracks silent
    induction tracks with
    | nil => rfl
    | cons track rest ih =>
      rw [silent track (List.mem_cons_self ..), tracksSpace,
        ih fun other member => silent other (List.mem_cons_of_mem _ member)]
      rfl
  have silent : ∀ track ∈ (silentSong count).tracks, track = .silent := by
    intro track member
    obtain ⟨segment, listed, inside⟩ := List.mem_flatMap.mp member
    rw [(List.mem_replicate.mp listed).2] at inside
    have tracks : ∀ track ∈ Segment.silent.tracks.toList, track = .silent := by decide
    exact tracks track inside
  have length : (silentSong count).segments.length = count := List.length_replicate
  rw [Song.requiredSpace, empty _ silent, Song.tableOffset, Song.headerSize, length]
  refine congrArg Except.ok ?_
  simp only [Song.loops, silentSong, Song.new, Song.tableSize]
  simp
  omega

/-- Two songs that leave two bytes of the expanded bank's capacity. -/
def full : Soundtrack := { songs := [silentSong 1, silentSong 648], loaded := true }

/-- An image with an empty table in the auxiliary bank. -/
def auxiliaryBlock : SingleBlock := { bank := .auxiliary, address := 0x2B00, payload := [0, 0] }

def auxiliaryImage : Image := .ofBlocks [auxiliaryBlock]

theorem payloadSize_full : full.payloadSize .overworldExpanded = .ok 11692 := by
  have songs : full.songsIn .overworldExpanded = [silentSong 1, silentSong 648] := rfl
  rw [Soundtrack.payloadSize, songs]
  simp only [songsSpace, requiredSpace_silentSong]
  rfl

theorem dirtyBanks_full : full.dirtyBanks = [.overworldExpanded] := rfl

theorem songsOnly_full : full.SongsOnly := ⟨rfl, by simp [full]⟩

theorem headerOffset_auxiliaryImage : auxiliaryImage.headerOffset = 0 :=
  Image.headerOffset_ofBlocks _

theorem saves_full : (full.save auxiliaryImage).outcome = .ok () := by
  have alone : ∀ bank ∈ full.dirtyBanks, bank = .overworldExpanded := by
    intro bank dirty
    rw [dirtyBanks_full] at dirty
    exact List.mem_singleton.mp dirty
  have checked : full.check = .ok () := by
    refine Soundtrack.check_of_songsOnly songsOnly_full fun bank dirty => ?_
    rw [alone bank dirty, Soundtrack.checkBank, payloadSize_full]
    rfl
  refine Soundtrack.save_of_room songsOnly_full rfl (Image.isLoaded_ofBlocks _) checked ?_ ?_
  · intro bank _ song listed segment point
    have none : song.loopPoint = none := by
      rcases List.mem_cons.mp (List.mem_filter.mp listed).1 with rfl | member
      · rfl
      · rw [List.mem_singleton.mp member]
        rfl
    simp [none] at point
  · intro bank dirty size sized
    rw [alone bank dirty, payloadSize_full, Except.ok.injEq] at sized
    rw [alone bank dirty, Image.locate, headerOffset_auxiliaryImage, auxiliaryImage,
      Image.size_ofBlocks, ← sized]
    decide

/-- The end of the chain covers the size of the auxiliary bank's block and not its address. -/
theorem reaches_full : full.Reaches 0 0x1ACCA7 ∧ ¬full.Reaches 0 0x1ACCAA := by
  constructor
  · exact ⟨by rw [dirtyBanks_full]; decide, 11692, payloadSize_full, by decide⟩
  · rintro ⟨-, size, sized, below⟩
    rw [payloadSize_full, Except.ok.injEq] at sized
    rw [← sized] at below
    exact absurd below (by decide)

/-- The size of the auxiliary bank's block becomes zero, which ends its chain before it begins; the
address behind it is left alone. -/
theorem full_bank_clears_neighbour :
    full.SongsOnly ∧ (∀ bank, full.config.limit bank ≤ bank.defaultLimit) ∧
      (full.save auxiliaryImage).outcome = .ok () ∧ Bank.auxiliary ∉ full.dirtyBanks ∧
      Bank.auxiliary.Holds auxiliaryImage.headerOffset 0x1ACCA7 ∧
      auxiliaryImage.data[0x1ACCA7]? = some 2 ∧
      (full.save auxiliaryImage).image.data[0x1ACCA7]? = some 0 ∧
      (full.save auxiliaryImage).image.data[0x1ACCAA]? = some 0x2B := by
  have le : ∀ bank, full.config.limit bank ≤ bank.defaultLimit := fun _ => Nat.le_refl _
  have clean : Bank.auxiliary ∉ full.dirtyBanks := by rw [dirtyBanks_full]; decide
  have block : auxiliaryImage.Has UploadBank.auxiliary.offset
      ([2, 0, 0, 0x2B] ++ [0, 0, 0, 0, 0, 0]) :=
    Image.has_ofBlocks (by decide) (by decide) (List.mem_singleton_self auxiliaryBlock)
  have first : Bank.auxiliary.Holds auxiliaryImage.headerOffset 0x1ACCA7 := by
    rw [headerOffset_auxiliaryImage]
    exact ⟨by decide, by decide⟩
  have last : Bank.auxiliary.Holds auxiliaryImage.headerOffset 0x1ACCAA := by
    rw [headerOffset_auxiliaryImage]
    exact ⟨by decide, by decide⟩
  obtain ⟨reached, behind⟩ := reaches_full
  rw [← headerOffset_auxiliaryImage] at reached behind
  refine ⟨songsOnly_full, le, saves_full, clean, first, ?_, ?_, ?_⟩
  · exact block.left.getElem? (by decide) (by decide)
  · exact (Soundtrack.neighbours_kept songsOnly_full le saves_full clean first).2 rfl reached
  · rw [(Soundtrack.neighbours_kept songsOnly_full le saves_full clean last).1 fun covered =>
      behind covered.2]
    exact block.left.getElem? (by decide) (by decide)

end SnesMusic
