import SnesMusic.Proofs.Soundtrack.FailedSave

/-!
# Saved blocks

What stands in the image once the songs of a bank have been saved, byte for byte. Main statement:
where the songs of a bank take no more than the room up to the end of memory, saving them never
overflows, and succeeds if their loops lead to segments and the image has room for their block. The
block is then the only one of its bank, its size is the one computed beforehand, and its table leads
to the songs, which lie one after the other behind it (`saveSongs_exact`).
-/
namespace SnesMusic

open LittleEndian

namespace Saving

/-! ### Saved songs -/

/-- Where the word of a bank's `i`-th song stands in the table at the beginning of its block. -/
def tableWordAt (image : Image) (bank : Bank) (i : Nat) : Nat :=
  image.locate bank.offset + Block.headerSize + 2 * i

/-- The `i`-th song of a bank has been saved at an address: that behind the table and the songs in
front of it. The table tells the address, and the song's bytes are uploaded there. -/
structure SavedSong (bank : Bank) (before after : Saving) (i : Nat) (song : Song)
    (address : UInt16) : Prop where
  place : ∃ front, songsSpace ((before.soundtrack.songsIn bank).take i) = .ok front ∧
    address.toNat =
      bank.tableAddress.toNat + 2 * ((before.soundtrack.songsIn bank).length + 1) + front
  kept : (after.soundtrack.songsIn bank)[i]? = some { song with address }
  word : after.image.readWord (tableWordAt after.image bank i) = .ok address
  bytes : ∃ encoding behind, song.encode address = .ok encoding ∧
    (Uploads.ofImage after.image bank.uploadBank).from? address = some (encoding.data ++ behind)

/-- The songs of a bank have been saved as a block of `size` bytes: the header tells the size, the
bank's chain has no other block, each song is saved, and a null word ends the table. -/
structure SavedBlock (bank : Bank) (before after : Saving) (size : Nat) : Prop where
  sizeWord : ∃ word, after.image.readWord (after.image.locate bank.offset) = .ok word ∧
    word.toNat = size
  block : ∃ payload, payload.length = size ∧ chain after.image bank.uploadBank = [{
    offset := after.image.locate bank.offset + Block.headerSize
    address := bank.tableAddress
    bytes := payload }]
  count : (after.soundtrack.songsIn bank).length = (before.soundtrack.songsIn bank).length
  songs : ∀ i song, (before.soundtrack.songsIn bank)[i]? = some song →
    ∃ address, SavedSong bank before after i song address
  tableEnd : after.image.readWord
    (tableWordAt after.image bank (before.soundtrack.songsIn bank).length) = .ok 0

variable {bank : Bank} {s : Saving} {size : Nat}

/-- The words of a table that was written: the addresses of the songs and the null word. -/
theorem has_table {limit : Bank → Nat} {image : Image} {songs moved : List Song}
    {body : List UInt8} (wrote : Wrote limit bank image songs moved body) :
    image.Has (tableWordAt image bank 0)
      ((moved.map Song.address ++ [0]).flatMap bytes ++ body) := by
  have behind := wrote.has.right
  have header : (bytes (UInt16.ofNat (payload moved body).length) ++
      bytes bank.tableAddress).length = Block.headerSize := rfl
  have whole : payload moved body = (moved.map Song.address ++ [0]).flatMap bytes ++ body := by
    rw [payload, List.flatMap_append]
    rfl
  rw [header, whole] at behind
  exact behind

/-- Each word of the table is read from its place. -/
theorem readWord_table {limit : Bank → Nat} {image : Image} {songs moved : List Song}
    {body : List UInt8} (wrote : Wrote limit bank image songs moved body) {i : Nat} {w : UInt16}
    (stands : (moved.map Song.address ++ [0])[i]? = some w) :
    image.readWord (tableWordAt image bank i) = .ok w :=
  Image.readWord_of_has_words (has_table wrote) stands

theorem savedSong_of_wrote {limit : Bank → Nat} {after : Saving} {body : List UInt8}
    (wrote : Wrote limit bank after.image (s.soundtrack.songsIn bank)
      (after.soundtrack.songsIn bank) body) (room : limit bank ≤ bank.room) {i : Nat} {song : Song}
    (stands : (s.soundtrack.songsIn bank)[i]? = some song) :
    ∃ address, SavedSong bank s after i song address := by
  obtain ⟨place, front, own, behind, moved, there, space⟩ := wrote.placed.stands_behind stands
  obtain ⟨encoding, encoded, held, -⟩ := wrote.holds_song room moved
  obtain ⟨more, found⟩ := held.found (Song.data_ne_nil encoded)
  refine ⟨(song.movedTo place).address, ⟨front.length, space, ?_⟩, moved, ?_, ?_⟩
  · rw [there.place, firstAddress, Nat.mul_comm]
  · apply readWord_table wrote
    have inside : i < ((after.soundtrack.songsIn bank).map Song.address).length := by
      rw [List.length_map]
      exact (List.getElem?_eq_some_iff.mp moved).1
    rw [List.getElem?_append_left inside, List.getElem?_map, moved]
    rfl
  · exact ⟨encoding, more, encoded, found⟩

/-- Songs that fit the memory do not overflow it, whatever else may keep them from being saved. -/
theorem saveSongs_ne_overflow (sized : s.soundtrack.payloadSize bank = .ok size)
    (room : size ≤ bank.room) (store : Store) (needed limit : Nat) :
    (saveSongs bank s).outcome ≠ .error (.overflow store needed limit) := by
  intro overflow
  rcases outcome_placement_of_room sized room with placed | ⟨-, -, segment, -, -, refused⟩
  · cases fault : s.image.fault? (s.image.locate bank.offset)
        ((blockPayload bank s).length + 2 * Block.headerSize) with
    | none =>
      rw [outcome_saveSongs placed (Image.fits_of_fault? fault).2] at overflow
      simp at overflow
    | some e =>
      rw [(saveSongs_of_fault placed fault).1, Except.error.injEq] at overflow
      subst overflow
      exact Image.fault?_ne_overflow _ _ _ fault
  · rw [(saveSongs_of_refused refused).1] at overflow
    simp at overflow

/-- Saving a bank that fits the memory leaves its songs in one block of the size computed for
them. -/
theorem savedBlock_of_saveSongs (ok : (saveSongs bank s).outcome = .ok ())
    (sized : s.soundtrack.payloadSize bank = .ok size) (room : size ≤ bank.room) :
    SavedBlock bank s (saveSongs bank s) size := by
  have fits : Fits Bank.room bank s.soundtrack.songs := fits_of_payloadSize sized room
  obtain ⟨body, wrote⟩ := wrote_saveSongs ok fits
  have placed := (saveSongs_ok ok).1
  have length := length_blockPayload_eq placed sized
  have short : (blockPayload bank s).length ≤ bank.room := length ▸ room
  have count := wrote.placed.length_eq
  have header : (saveSongs bank s).image.readWord ((saveSongs bank s).image.locate bank.offset) =
      .ok (UInt16.ofNat size) := by
    rw [← length]
    exact Image.readWord_of_has_bytes (has_saveSongs ok).left.left.left
  have whole : (UInt16.ofNat size).toNat = size := by
    rw [UInt16.toNat_ofNat']
    exact Nat.mod_eq_of_lt (Nat.lt_of_le_of_lt room bank.room_lt)
  have last : ((songsOf bank (saveSongs bank s).soundtrack.songs).map Song.address ++
      [0])[(songsOf bank s.soundtrack.songs).length]? = some 0 := by
    rw [← count, ← List.length_map Song.address, List.getElem?_concat_length]
  exact {
    sizeWord := ⟨_, header, whole⟩
    block := ⟨_, length, chain_saveSongs ok short⟩
    count
    songs := fun _ _ stands => savedSong_of_wrote wrote (Nat.le_refl _) stands
    tableEnd := readWord_table wrote last }

/-- Where the songs of a bank take no more than the room up to the end of memory, no overflow is met
in saving them. If moreover their loops lead to segments and the image has room for the block, they
are saved as a block of the size computed for them. -/
theorem saveSongs_exact (sized : s.soundtrack.payloadSize bank = .ok size)
    (room : size ≤ bank.room) :
    (∀ store needed limit, (saveSongs bank s).outcome ≠ .error (.overflow store needed limit)) ∧
    ((∀ song ∈ s.soundtrack.songsIn bank, ∀ segment, song.loopPoint = some segment →
        segment < song.segments.length) →
      s.image.locate bank.offset + (size + 2 * Block.headerSize) ≤ s.image.size →
      (saveSongs bank s).outcome = .ok () ∧ SavedBlock bank s (saveSongs bank s) size) := by
  refine ⟨saveSongs_ne_overflow sized room, fun looped inside => ?_⟩
  rcases outcome_placement_of_room sized room with
    placed | ⟨song, listed, segment, point, beyond, -⟩
  · rw [← length_blockPayload_eq placed sized] at inside
    have ok := outcome_saveSongs placed inside
    exact ⟨ok, savedBlock_of_saveSongs ok sized room⟩
  · exact absurd (looped song listed segment point) (Nat.not_lt_of_le beyond)

end Saving

/-! ### An example -/

/-- Two songs of 33 bytes behind a table of three words. -/
theorem short_songs_saved :
    let s : Saving := { soundtrack := { songs := [shortSong, shortSong] }, image := shortImage }
    s.soundtrack.payloadSize .dungeon = .ok 72 ∧ 72 ≤ Bank.room .dungeon ∧
      (Saving.saveSongs .dungeon s).outcome = .ok () ∧
      Saving.SavedBlock .dungeon s (Saving.saveSongs .dungeon s) 72 := by
  intro s
  have sized : s.soundtrack.payloadSize .dungeon = .ok 72 :=
    Report.ok_of_toOption (by decide +kernel)
  have room : 72 ≤ Bank.room .dungeon := by decide
  have looped : ∀ song ∈ s.soundtrack.songsIn .dungeon, ∀ segment,
      song.loopPoint = some segment → segment < song.segments.length := by decide +kernel
  refine ⟨sized, room, (Saving.saveSongs_exact sized room).2 looped ?_⟩
  show shortImage.locate Bank.dungeon.offset + (72 + 2 * Block.headerSize) ≤ shortImage.size
  rw [locate_shortImage, size_shortImage]
  decide

end SnesMusic
