import SnesMusic.Proofs.Bytecode.SongRoundTrip

/-!
# Moving encoded songs

Among the words of an encoded song the pointers are exactly those that its relocations list, so that
moving the song rewrites what another base address changes and nothing else. Main statement: a song
that is moved from base to base is the song encoded at the last of them (`encode_moved`).
-/
namespace SnesMusic

open LittleEndian

/-! ### Words -/

/-- A word that stands among other bytes is shifted where it stands. -/
theorem shiftWord_append (delta w : UInt16) (front behind : List UInt8) :
    shiftWord delta (front ++ (bytes w ++ behind)) front.length =
      front ++ (bytes (w + delta) ++ behind) := by
  have here : (front ++ (bytes w ++ behind)).drop front.length =
      lowByte w :: highByte w :: behind := by
    rw [List.drop_left]
    rfl
  rw [shiftWord, here]
  simp only
  rw [List.take_left, word_bytes, List.append_assoc]

namespace Cell

/-- A pointer follows the base address, whether or not it wraps around. -/
theorem value_of_isPointer {c : Cell} (pointer : c.isPointer = true) (base target : UInt16) :
    c.value base + (target - base) = c.value target := by
  cases c with
  | constant value => simp [isPointer] at pointer
  | pointer offset =>
    simp only [value]
    grind

/-- Other words have one value for every base address. -/
theorem value_of_not_isPointer {c : Cell} (constant : c.isPointer = false) (base target : UInt16) :
    c.value base = c.value target := by
  cases c with
  | constant value => rfl
  | pointer offset => simp [isPointer] at constant

/-- Shifting the words that are listed gives the cells of the new base address. The induction is on
the cells; those in front have been shifted. -/
theorem foldl_shiftWord (base target : UInt16) (front : List UInt8) (cells : List Cell)
    (body : List UInt8) :
    (relocations front.length cells).foldl (shiftWord (target - base))
        (front ++ (cells.flatMap (fun c => bytes (c.value base)) ++ body)) =
      front ++ (cells.flatMap (fun c => bytes (c.value target)) ++ body) := by
  induction cells generalizing front with
  | nil => rfl
  | cons c rest ih =>
    have later := ih (front ++ bytes (c.value target))
    rw [List.length_append, length_bytes] at later
    simp only [List.append_assoc] at later
    rw [relocations]
    simp only [List.flatMap_cons, List.append_assoc]
    cases pointer : c.isPointer with
    | true =>
      rw [if_pos rfl, List.foldl_cons, shiftWord_append, value_of_isPointer pointer, later]
    | false =>
      rw [if_neg (by simp), value_of_not_isPointer pointer base target, later]

end Cell

/-! ### Songs -/

namespace SongEncoding

/-- The encoding of cells and the tracks behind them. -/
def ofCells (cells : List Cell) (body : List UInt8) (base : UInt16) : SongEncoding :=
  { data := cells.flatMap (fun c => bytes (c.value base)) ++ body
    relocations := Cell.relocations 0 cells
    base }

theorem relocate_ofCells (cells : List Cell) (body : List UInt8) (base target : UInt16) :
    (ofCells cells body base).relocate target = ofCells cells body target := by
  have data := Cell.foldl_shiftWord base target [] cells body
  simp only [List.nil_append, List.length_nil] at data
  simp only [relocate, ofCells, data]

theorem foldl_relocate_ofCells (cells : List Cell) (body : List UInt8) (base : UInt16)
    (bases : List UInt16) :
    bases.foldl relocate (ofCells cells body base) =
      ofCells cells body (bases.getLastD base) := by
  induction bases generalizing base with
  | nil => rfl
  | cons next rest ih => rw [List.foldl_cons, relocate_ofCells, ih, List.getLastD_cons]

end SongEncoding

namespace Song

/-- What a song is made of does not depend on where it is encoded for. -/
theorem exists_cells {s : Song} {base : UInt16} {encoding : SongEncoding}
    (encoded : s.encode base = .ok encoding) :
    ∃ cells body, ∀ target, s.encode target = .ok (SongEncoding.ofCells cells body target) := by
  unfold encode at encoded ⊢
  cases loop : s.loopPoint.filter (s.segments.length ≤ ·) with
  | some segment => simp [loop] at encoded
  | none =>
    cases laid : layTracks (s.tableOffset s.segments.length) s.tracks with
    | error e => simp [loop, laid, bind, Except.bind] at encoded
    | ok pair => exact ⟨s.headerCells ++ pair.1, pair.2, fun target => rfl⟩

/-- A song that can be encoded for some address can be encoded for all; moving it to any base
addresses one after the other gives what encoding it for the last of them gives: the same bytes, the
same relocations and that base address. -/
theorem encode_moved {s : Song} {base : UInt16} {encoding : SongEncoding}
    (encoded : s.encode base = .ok encoding) (first : UInt16) (bases : List UInt16) :
    ∃ start, s.encode first = .ok start ∧
      s.encode (bases.getLastD first) = .ok (bases.foldl SongEncoding.relocate start) := by
  obtain ⟨cells, body, everywhere⟩ := exists_cells encoded
  refine ⟨_, everywhere first, ?_⟩
  rw [SongEncoding.foldl_relocate_ofCells, everywhere]

/-- A song that loops, moved across the end of memory and back. -/
theorem short_song_moved :
    shortSong.encode 0xD000 = .ok shortEncoding ∧ ∃ start, shortSong.encode 0x1000 = .ok start ∧
      shortSong.encode 0xD000 =
        .ok ([0xFFFB, 0x0003, 0xD000].foldl SongEncoding.relocate start) := by
  have encoded : shortSong.encode 0xD000 = .ok shortEncoding := rfl
  exact ⟨encoded, encode_moved encoded 0x1000 [0xFFFB, 0x0003, 0xD000]⟩

end Song
end SnesMusic
