import SnesMusic.Bytecode.Encode

/-!
# The layout of encoded songs

Where the parts of a song stand among its bytes. Main statements: every track has its cell, which
points to the track's bytes or is null (`layTracks_cell`); the words of a song are its segment list
and its channel tables (`words_data`), of which a segment's stands at its offset
(`drop_tableOffset`); and the tracks follow (`drop_track`).
-/
namespace SnesMusic

open LittleEndian

/-! ### Words -/

namespace LittleEndian

@[simp] theorem length_flatMap_bytes (ws : List UInt16) :
    (ws.flatMap bytes).length = 2 * ws.length := by
  induction ws with
  | nil => rfl
  | cons w rest ih =>
    rw [List.flatMap_cons, List.length_append, ih, length_bytes, List.length_cons]
    omega

/-- Words are read back from their bytes, whatever comes behind. -/
@[simp] theorem words_flatMap_bytes_append (ws : List UInt16) (behind : List UInt8) :
    words (ws.flatMap bytes ++ behind) = ws ++ words behind := by
  induction ws with
  | nil => rfl
  | cons w rest ih =>
    rw [List.flatMap_cons, List.append_assoc, words_bytes_append, ih, List.cons_append]

theorem words_flatMap_bytes (ws : List UInt16) : words (ws.flatMap bytes) = ws := by
  have read := words_flatMap_bytes_append ws []
  simpa [words] using read

theorem drop_flatMap_bytes (ws : List UInt16) (n : Nat) :
    (ws.flatMap bytes).drop (2 * n) = (ws.drop n).flatMap bytes := by
  induction ws generalizing n with
  | nil => simp
  | cons w rest ih =>
    cases n with
    | zero => rfl
    | succ n =>
      rw [List.flatMap_cons, show 2 * (n + 1) = 2 * n + 2 by omega, ← List.drop_drop]
      have moved : (bytes w ++ rest.flatMap bytes).drop (2 * n + 2) =
          (rest.flatMap bytes).drop (2 * n) := rfl
      rw [List.drop_drop, Nat.add_comm, Nat.add_comm 2, moved, ih, List.drop_succ_cons]

theorem take_flatMap_bytes (ws : List UInt16) (n : Nat) :
    (ws.flatMap bytes).take (2 * n) = (ws.take n).flatMap bytes := by
  induction ws generalizing n with
  | nil => simp
  | cons w rest ih =>
    cases n with
    | zero => rfl
    | succ n =>
      have moved : (bytes w ++ rest.flatMap bytes).take (2 * n + 2) =
          bytes w ++ (rest.flatMap bytes).take (2 * n) := rfl
      rw [List.flatMap_cons, show 2 * (n + 1) = 2 * n + 2 by omega, moved, ih,
        List.take_succ_cons, List.flatMap_cons]

end LittleEndian

/-! ### Tracks -/

namespace Song

theorem layTracks_of_empty {track : Track} (h : track.empty = true) (position : Nat)
    (rest : List Track) :
    layTracks position (track :: rest) =
      (layTracks position rest).map fun laid => (.constant 0 :: laid.1, laid.2) := by
  rw [layTracks, if_pos h]
  cases layTracks position rest <;> rfl

theorem layTracks_of_nonempty {track : Track} (h : track.empty = false) (position : Nat)
    (rest : List Track) :
    layTracks position (track :: rest) =
      match track.bytes? with
      | .error e => .error e
      | .ok bytes =>
        (layTracks (position + bytes.length) rest).map fun laid =>
          (.pointer position :: laid.1, bytes ++ laid.2) := by
  rw [layTracks, if_neg (by simp [h])]
  cases track.bytes? with
  | error e => rfl
  | ok bytes => cases layTracks (position + bytes.length) rest <;> rfl

/-- What is laid for the first track: a null cell when it is empty, else a cell that points to its
bytes, which come first. -/
theorem layTracks_cons_ok {position : Nat} {track : Track} {rest : List Track} {cells : List Cell}
    {body : List UInt8} (laid : layTracks position (track :: rest) = .ok (cells, body)) :
    (track.empty = true ∧ ∃ later, layTracks position rest = .ok (later, body) ∧
      cells = .constant 0 :: later) ∨
    (track.empty = false ∧ ∃ bytes later behind, track.bytes? = .ok bytes ∧
      layTracks (position + bytes.length) rest = .ok (later, behind) ∧
      cells = .pointer position :: later ∧ body = bytes ++ behind) := by
  cases empty : track.empty with
  | true =>
    rw [layTracks_of_empty empty] at laid
    cases later : layTracks position rest with
    | error e => simp [later, Except.map] at laid
    | ok pair =>
      simp only [later, Except.map, Except.ok.injEq, Prod.mk.injEq] at laid
      obtain ⟨rfl, rfl⟩ := laid
      exact Or.inl ⟨rfl, pair.1, rfl, rfl⟩
  | false =>
    rw [layTracks_of_nonempty empty] at laid
    cases encoded : track.bytes? with
    | error e => simp [encoded] at laid
    | ok bytes =>
      cases later : layTracks (position + bytes.length) rest with
      | error e => simp [encoded, later, Except.map] at laid
      | ok pair =>
        simp only [encoded, later, Except.map, Except.ok.injEq, Prod.mk.injEq] at laid
        obtain ⟨rfl, rfl⟩ := laid
        exact Or.inr ⟨rfl, bytes, pair.1, pair.2, rfl, later, rfl, rfl⟩

/-- Every track has a cell. -/
theorem length_layTracks {position : Nat} {tracks : List Track} {cells : List Cell}
    {body : List UInt8} (laid : layTracks position tracks = .ok (cells, body)) :
    cells.length = tracks.length := by
  induction tracks generalizing position cells body with
  | nil =>
    simp only [layTracks, Except.ok.injEq, Prod.mk.injEq] at laid
    rw [← laid.1]
    rfl
  | cons track rest ih =>
    obtain ⟨-, later, others, rfl⟩ | ⟨-, bytes, later, behind, -, others, rfl, -⟩ :=
      layTracks_cons_ok laid
    all_goals rw [List.length_cons, List.length_cons, ih others]

/-- An empty track has a null cell, another one a cell that points to its bytes. -/
theorem layTracks_cell {position : Nat} {tracks : List Track} {cells : List Cell}
    {body : List UInt8} (laid : layTracks position tracks = .ok (cells, body)) {j : Nat}
    {track : Track} (stands : tracks[j]? = some track) :
    if track.empty then cells[j]? = some (.constant 0)
    else ∃ bytes front behind, track.bytes? = .ok bytes ∧ body = front ++ (bytes ++ behind) ∧
      cells[j]? = some (.pointer (position + front.length)) := by
  induction tracks generalizing position cells body j with
  | nil => simp at stands
  | cons first rest ih =>
    obtain ⟨empty, later, others, rfl⟩ | ⟨empty, bytes, later, after, encoded, others, rfl, rfl⟩ :=
      layTracks_cons_ok laid
    · cases j with
      | zero =>
        simp only [List.getElem?_cons_zero, Option.some.injEq] at stands
        subst stands
        rw [if_pos empty]
        rfl
      | succ j => exact ih others stands
    · cases j with
      | zero =>
        simp only [List.getElem?_cons_zero, Option.some.injEq] at stands
        subst stands
        rw [if_neg (by simp [empty])]
        exact ⟨bytes, [], after, encoded, rfl, rfl⟩
      | succ j =>
        have cell := ih others stands
        cases shown : track.empty with
        | true => simpa [shown] using cell
        | false =>
          rw [if_neg (by simp [shown])] at cell ⊢
          obtain ⟨own, front, behind, mine, split, pointer⟩ := cell
          refine ⟨own, bytes ++ front, behind, mine, ?_, ?_⟩
          · rw [split, List.append_assoc]
          · rw [List.getElem?_cons_succ, pointer, List.length_append, Nat.add_assoc]

/-! ### Tables -/

/-- The tracks of a segment stand together, in the order of their channels. -/
theorem tracks_getElem? {segments : List Segment} {i : Nat} {segment : Segment}
    (stands : segments[i]? = some segment) {channel : Nat} (h : channel < 8) :
    (segments.flatMap (·.tracks.toList))[i * 8 + channel]? = some segment.tracks[channel] := by
  induction segments generalizing i with
  | nil => simp at stands
  | cons first rest ih =>
    rw [List.flatMap_cons]
    cases i with
    | zero =>
      simp only [List.getElem?_cons_zero, Option.some.injEq] at stands
      subst stands
      rw [Nat.zero_mul, Nat.zero_add, List.getElem?_append_left (by simpa using h)]
      simp [h]
    | succ i =>
      rw [List.getElem?_append_right (by simp only [Vector.length_toList]; omega),
        Vector.length_toList, show (i + 1) * 8 + channel - 8 = i * 8 + channel by omega]
      exact ih stands

theorem length_tracks (s : Song) : s.tracks.length = s.segments.length * 8 := by
  unfold tracks
  induction s.segments with
  | nil => rfl
  | cons first rest ih =>
    rw [List.flatMap_cons, List.length_append, ih, Vector.length_toList, List.length_cons]
    omega

theorem length_headerCells (s : Song) : 2 * s.headerCells.length = s.headerSize := by
  unfold headerCells headerSize loops
  cases s.loopPoint with
  | none =>
    simp
    omega
  | some segment =>
    simp
    omega

/-- The tables stand at different offsets. -/
theorem tableOffset_lt (s : Song) {i j : Nat} (h : i < j) : s.tableOffset i < s.tableOffset j := by
  rw [tableOffset, tableOffset, tableSize]
  omega

/-! ### Songs -/

/-- The parts of a song's bytes: the segment list and the channel tables word by word, then the
tracks. -/
structure Laid (s : Song) (base : UInt16) (data : List UInt8) (tables : List Cell)
    (body : List UInt8) : Prop where
  looped : ∀ segment, s.loopPoint = some segment → segment < s.segments.length
  laid : layTracks (s.tableOffset s.segments.length) s.tracks = .ok (tables, body)
  data_eq : data = ((s.headerCells ++ tables).map (·.value base)).flatMap bytes ++ body

theorem laid_of_encode {s : Song} {base : UInt16} {encoding : SongEncoding}
    (encoded : s.encode base = .ok encoding) :
    ∃ tables body, s.Laid base encoding.data tables body := by
  unfold encode at encoded
  cases loop : s.loopPoint.filter (s.segments.length ≤ ·) with
  | some segment => simp [loop] at encoded
  | none =>
    cases laid : layTracks (s.tableOffset s.segments.length) s.tracks with
    | error e => simp [loop, laid, bind, Except.bind] at encoded
    | ok pair =>
      obtain ⟨tables, body⟩ := pair
      simp only [loop, laid, bind, Except.bind, pure, Except.pure, Except.ok.injEq] at encoded
      refine ⟨tables, body, ?_, laid, ?_⟩
      · intro segment point
        simpa [point, Option.filter] using loop
      · rw [← encoded, List.flatMap_map]

namespace Laid

variable {s : Song} {base : UInt16} {data : List UInt8} {tables : List Cell} {body : List UInt8}

theorem length_tables (h : s.Laid base data tables body) :
    tables.length = s.segments.length * 8 := by
  rw [length_layTracks h.laid, length_tracks]

/-- The tracks follow the last table. -/
theorem length_words (h : s.Laid base data tables body) :
    (((s.headerCells ++ tables).map (·.value base)).flatMap bytes).length =
      s.tableOffset s.segments.length := by
  have header := s.length_headerCells
  rw [length_flatMap_bytes, List.length_map, List.length_append, h.length_tables, tableOffset,
    tableSize]
  omega

theorem length_data (h : s.Laid base data tables body) :
    data.length = s.tableOffset s.segments.length + body.length := by
  rw [h.data_eq, List.length_append, h.length_words]

theorem tableOffset_lt_length (h : s.Laid base data tables body) {i : Nat}
    (inside : i < s.segments.length) : s.tableOffset i < data.length := by
  have before := s.tableOffset_lt inside
  rw [h.length_data]
  omega

theorem words_data (h : s.Laid base data tables body) (behind : List UInt8) :
    words (data ++ behind) = (s.headerCells ++ tables).map (·.value base) ++
      words (body ++ behind) := by
  rw [h.data_eq, List.append_assoc, words_flatMap_bytes_append]

/-- From a segment's table offset on, its cells follow. -/
theorem drop_tableOffset (h : s.Laid base data tables body) {i : Nat}
    (inside : i < s.segments.length) :
    data.drop (s.tableOffset i) =
      ((tables.map (·.value base)).drop (i * 8)).flatMap bytes ++ body := by
  have header := s.length_headerCells
  have offset : s.tableOffset i = 2 * (s.headerCells.length + i * 8) := by
    rw [tableOffset, tableSize]
    omega
  have fits : s.tableOffset i ≤
      (((s.headerCells ++ tables).map (·.value base)).flatMap bytes).length := by
    rw [h.length_words]
    exact Nat.le_of_lt (s.tableOffset_lt inside)
  rw [h.data_eq, List.drop_append_of_le_length fits, offset, drop_flatMap_bytes,
    ← List.drop_drop, List.map_append, ← List.length_map (·.value base), List.drop_left]

/-- From a track's offset on, its bytes follow. -/
theorem drop_track (h : s.Laid base data tables body) {front behind own : List UInt8}
    (split : body = front ++ (own ++ behind)) :
    data.drop (s.tableOffset s.segments.length + front.length) = own ++ behind := by
  rw [h.data_eq, ← h.length_words, split, ← List.drop_drop, List.drop_left, List.drop_left]

end Laid

/-- A song has at least the end of its segment list. -/
theorem data_ne_nil {s : Song} {base : UInt16} {encoding : SongEncoding}
    (encoded : s.encode base = .ok encoding) : encoding.data ≠ [] := by
  obtain ⟨tables, body, h⟩ := laid_of_encode encoded
  have length := h.length_data
  intro none
  rw [none, List.length_nil, tableOffset, headerSize] at length
  omega

end Song
end SnesMusic
