import SnesMusic.Proofs.Bytecode.SongReading
import SnesMusic.Proofs.Upload

/-!
# Songs in images

Main statement: a song that is encoded for an address and stands there in the first block of a
bank's chain is read back in canonical form, and what is read has the same encoding
(`song_reads_encoded`).
-/
namespace SnesMusic

namespace Uploads

theorem ofImage_blocks {image : Image} {bank : UploadBank} {block : Block}
    (first : (chain image bank)[0]? = some block) :
    ∃ rest, (ofImage image bank).blocks = block :: rest := by
  cases own : chain image bank with
  | nil => simp [own] at first
  | cons b others =>
    simp only [own, List.getElem?_cons_zero, Option.some.injEq] at first
    exact ⟨others ++ if bank = .common then [] else chain image .common,
      by rw [ofImage, own, first]; rfl⟩

end Uploads

namespace Image

/-- Reading undoes encoding, for every song with segments and every address from 0x100 on where
the song ends within memory. Calls must take no ticks: they are not repeated, or go where nothing
is uploaded and may nest one level. -/
theorem song_reads_encoded {image : Image} {bank : Bank} {limits : Limits} {s : Song}
    {base : UInt16} {encoding : SongEncoding} {block : Block} (segmented : s.segments ≠ [])
    (encoded : s.encode base = .ok encoding) (far : 0x100 ≤ base.toNat)
    (fits : base.toNat + encoding.data.length ≤ 0x10000)
    (first : (chain image bank.uploadBank)[0]? = some block) (target : block.address = base)
    (placed : encoding.data <+: block.bytes) (depth : 1 ≤ limits.depth)
    (calls : ∀ track ∈ s.tracks, track.empty = false → ∀ e ∈ Track.beforeEnd track.events,
      ∀ callee repeats, e.call? = some (callee, repeats) → repeats = 0 ∨
        2 ≤ limits.depth ∧ (Uploads.ofImage image bank.uploadBank).from? callee = none)
    (ticks : ∀ track ∈ s.tracks, track.empty = false →
      Track.ticksBeforeEnd track.events < limits.ticks) :
    let read : Song := {
      name := "Song $" ++ Text.hexWord base
      segments := s.canonical.segments
      loopPoint := s.loopPoint
      bank
      address := base }
    (image.song bank limits base).outcome = .ok read ∧ read.encode base = .ok encoding := by
  intro read
  constructor
  · have uploads : image.uploads bank.uploadBank =
        .ok (Uploads.ofImage image bank.uploadBank) := by
      rw [Image.uploads, if_pos (isLoaded_of_chain first)]
    obtain ⟨rest, blocks⟩ := Uploads.ofImage_blocks first
    subst target
    have held : (Uploads.ofImage image bank.uploadBank).Holds block.address encoding.data :=
      Uploads.Holds.of_first_block blocks fits placed
    rw [Image.song, Report.outcome_bind_of_ok uploads]
    exact Uploads.song_outcome bank segmented encoded held far depth fun track member filled =>
      ⟨calls track member filled, ticks track member filled⟩
  · have same : read.encode base = s.canonical.encode base := rfl
    rw [same, Song.encode_canonical, encoded]

end Image

/-! ### An example -/

/-- A song of one segment that loops to itself: a note, a tie, a call to itself without
repetitions, a rest at another velocity and a note behind the end marker. -/
def shortSong : Song := {
  name := "Short"
  segments := [{ tracks := (Vector.replicate 8 Track.silent).set 2 (.ofEvents [
    .note { pitch := 0xA4, duration := 0x18 },
    .note { pitch := tiePitch, duration := 0x18, timed := true },
    .command { opcode := callOpcode, first := 0x00, second := 0xD0, third := 0 },
    .note { pitch := restPitch, duration := 0x18, velocity := 0x7F },
    .finish,
    .note { pitch := 0x00, duration := 0x00 }]) }]
  loopPoint := some 0
  bank := .dungeon
  address := 0
  modified := true }

/-- The bytes of the song at the address of song tables. -/
def shortEncoding : SongEncoding := {
  data := [
    0x06, 0xD0, 0xFF, 0x00, 0x06, 0xD0,
    0x00, 0x00, 0x00, 0x00, 0x16, 0xD0, 0x00, 0x00, 0x00, 0x00, 0x00, 0x00, 0x00, 0x00, 0x00, 0x00,
    0x18, 0xA4, 0xC8, 0xEF, 0x00, 0xD0, 0x00, 0x18, 0x7F, 0xC9, 0x00]
  relocations := [0, 4, 10]
  base := 0xD000 }

theorem short_song_reads_encoded :
    shortSong.encode 0xD000 = .ok shortEncoding ∧
      let read : Song := {
        name := "Song $D000"
        segments := shortSong.canonical.segments
        loopPoint := some 0
        bank := .dungeon
        address := 0xD000 }
      ((Image.ofBlocks [⟨.dungeon, 0xD000, shortEncoding.data⟩]).song .dungeon { depth := 1 }
        0xD000).outcome = .ok read ∧ read.encode 0xD000 = .ok shortEncoding := by
  have uncalled : ∀ track ∈ shortSong.tracks, ∀ e ∈ Track.beforeEnd track.events,
      (e.call?.map (·.2)).getD 0 = 0 := by decide
  have short : ∀ track ∈ shortSong.tracks, track.empty = false →
      Track.ticksBeforeEnd track.events < 50000 := by decide
  have encoded : shortSong.encode 0xD000 = .ok shortEncoding := rfl
  have first : (chain (Image.ofBlocks [⟨.dungeon, 0xD000, shortEncoding.data⟩]) .dungeon)[0]? =
      some (SingleBlock.placed ⟨.dungeon, 0xD000, shortEncoding.data⟩) := by
    have own := Image.chain_ofBlocks (by decide) (by decide)
      (List.mem_singleton_self (⟨.dungeon, 0xD000, shortEncoding.data⟩ : SingleBlock))
    rw [own]
    rfl
  refine ⟨encoded, Image.song_reads_encoded (by decide) encoded (by decide) (by decide)
    first rfl (List.prefix_refl _) (by decide) ?_ short⟩
  intro track member filled e heard callee repeats called
  have none := uncalled track member e heard
  rw [called] at none
  exact Or.inl none

end SnesMusic
