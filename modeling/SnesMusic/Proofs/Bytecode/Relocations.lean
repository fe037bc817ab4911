import SnesMusic.Proofs.Bytecode.SongLayout

/-!
# Relocations

Where the pointers of an encoded song stand. Main statement: its relocations are one for each
segment, one for a loop and one for each track that is not empty, in increasing order, each a whole
word inside the song (`relocated_of_encode`).
-/
namespace SnesMusic

namespace Cell

/-- Cells are words: a pointer stands a whole word in front of the end. -/
theorem relocations_inside (position : Nat) (cells : List Cell) :
    ∀ offset ∈ relocations position cells,
      position ≤ offset ∧ offset + 2 ≤ position + 2 * cells.length := by
  induction cells generalizing position with
  | nil => simp [relocations]
  | cons c rest ih =>
    intro offset member
    rw [List.length_cons]
    have behind : offset ∈ relocations (position + 2) rest →
        position ≤ offset ∧ offset + 2 ≤ position + 2 * (rest.length + 1) := by
      intro later
      have bounds := ih (position + 2) offset later
      omega
    rw [relocations] at member
    split at member
    · rcases List.mem_cons.mp member with rfl | later
      · omega
      · exact behind later
    · exact behind member

/-- No two pointers overlap, and they are listed in order. -/
theorem relocations_apart (position : Nat) (cells : List Cell) :
    (relocations position cells).Pairwise (fun first second => first + 2 ≤ second) := by
  induction cells generalizing position with
  | nil => exact List.Pairwise.nil
  | cons c rest ih =>
    rw [relocations]
    split
    · apply List.Pairwise.cons
      · intro offset later
        exact (relocations_inside (position + 2) rest offset later).1
      · exact ih (position + 2)
    · exact ih (position + 2)

theorem length_relocations (position : Nat) (cells : List Cell) :
    (relocations position cells).length = cells.countP isPointer := by
  induction cells generalizing position with
  | nil => rfl
  | cons c rest ih =>
    rw [relocations, List.countP_cons]
    split
    · rw [List.length_cons, ih]
    · rw [ih, Nat.add_zero]

end Cell

namespace Song

/-- The segment list points to every segment and to the one that the song loops to. -/
theorem countP_headerCells (s : Song) :
    s.headerCells.countP Cell.isPointer = s.segments.length + if s.loops then 1 else 0 := by
  have segments : ∀ indices : List Nat,
      (indices.map (fun i => Cell.pointer (s.tableOffset i))).countP Cell.isPointer =
        indices.length := by
    intro indices
    rw [List.countP_map, List.countP_eq_length]
    intro i _
    rfl
  rw [headerCells, List.countP_append, segments, List.length_range, loops]
  cases s.loopPoint with
  | none => rfl
  | some segment => rfl

/-- The channel tables point to the tracks that are not empty. -/
theorem countP_layTracks {position : Nat} {tracks : List Track} {cells : List Cell}
    {body : List UInt8} (laid : layTracks position tracks = .ok (cells, body)) :
    cells.countP Cell.isPointer = tracks.countP (!·.empty) := by
  induction tracks generalizing position cells body with
  | nil =>
    simp only [layTracks, Except.ok.injEq, Prod.mk.injEq] at laid
    rw [← laid.1]
    rfl
  | cons track rest ih =>
    obtain ⟨empty, later, others, rfl⟩ | ⟨filled, bytes, later, behind, -, others, rfl, -⟩ :=
      layTracks_cons_ok laid
    · rw [List.countP_cons, List.countP_cons, ih others, empty]
      rfl
    · rw [List.countP_cons, List.countP_cons, ih others, filled]
      rfl

/-- Where the pointers of an encoded song stand: one for each segment, one for a loop and one for
each track that is not empty, in order and without overlap, all of them inside the song. -/
structure Relocated (s : Song) (encoding : SongEncoding) : Prop where
  apart : encoding.relocations.Pairwise (fun first second => first + 2 ≤ second)
  inside : ∀ offset ∈ encoding.relocations, offset + 2 ≤ encoding.data.length
  count : encoding.relocations.length =
    s.segments.length + (if s.loops then 1 else 0) + s.tracks.countP (!·.empty)

theorem relocations_of_encode {s : Song} {base : UInt16} {encoding : SongEncoding}
    (encoded : s.encode base = .ok encoding) :
    ∃ tables body, s.Laid base encoding.data tables body ∧
      encoding.relocations = Cell.relocations 0 (s.headerCells ++ tables) := by
  obtain ⟨tables, body, h⟩ := laid_of_encode encoded
  have valid : s.loopPoint.filter (s.segments.length ≤ ·) = none := by
    rw [Option.filter_eq_none_iff]
    intro segment point
    simpa using h.looped segment point
  rw [encode, valid, h.laid] at encoded
  refine ⟨tables, body, h, ?_⟩
  cases encoded
  rfl

theorem relocated_of_encode {s : Song} {base : UInt16} {encoding : SongEncoding}
    (encoded : s.encode base = .ok encoding) : s.Relocated encoding := by
  obtain ⟨tables, body, h, listed⟩ := relocations_of_encode encoded
  have words : 2 * (s.headerCells ++ tables).length ≤ encoding.data.length := by
    have cells := h.length_words
    rw [LittleEndian.length_flatMap_bytes, List.length_map] at cells
    rw [h.length_data]
    omega
  constructor
  · rw [listed]
    exact Cell.relocations_apart 0 _
  · intro offset member
    rw [listed] at member
    have bounds := Cell.relocations_inside 0 _ offset member
    omega
  · rw [listed, Cell.length_relocations, List.countP_append, s.countP_headerCells,
      countP_layTracks h.laid]

end Song
end SnesMusic
