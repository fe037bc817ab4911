import SnesMusic.Bytecode.SongReader
import SnesMusic.Proofs.Bytecode.Calls
import SnesMusic.Proofs.Bytecode.SongLayout
import SnesMusic.Proofs.Bytecode.TrackReading
import SnesMusic.Proofs.Report

/-!
# Reading encoded songs

A song whose bytes are uploaded is read back from its address. Main statements: an encoded track
without calls that take ticks is read in canonical form (`track_outcome`), the segment list leads to
the channel tables (`read_headerCells`) and these to the tracks (`trackAt`), so that a song is read
as its tracks are (`song_read`), in canonical form where they are heard to their end
(`song_outcome`).
-/
namespace SnesMusic

open LittleEndian

/-! ### Uploaded bytes -/

theorem toNat_add_ofNat {base : UInt16} {n : Nat} (h : base.toNat + n < UInt16.size) :
    (base + UInt16.ofNat n).toNat = base.toNat + n := by
  simp only [UInt16.toNat_add, UInt16.toNat_ofNat']
  have size : UInt16.size = 65536 := rfl
  omega

namespace Uploads

/-- The bytes `data` are uploaded to `base`: each of their addresses is found in one block, where
they go on to their end. -/
structure Holds (u : Uploads) (base : UInt16) (data : List UInt8) : Prop where
  fits : base.toNat + data.length ≤ UInt16.size
  resolves : ∀ offset < data.length, ∃ behind,
    u.from? (base + UInt16.ofNat offset) = some (data.drop offset ++ behind)

variable {u : Uploads} {base : UInt16} {data : List UInt8}

theorem Holds.found (held : u.Holds base data) (ne : data ≠ []) :
    ∃ behind, u.from? base = some (data ++ behind) := by
  have first := held.resolves 0 (List.length_pos_iff.mpr ne)
  simpa using first

theorem Holds.toNat_add (held : u.Holds base data) {offset : Nat} (inside : offset < data.length) :
    (base + UInt16.ofNat offset).toNat = base.toNat + offset :=
  toNat_add_ofNat (Nat.lt_of_lt_of_le (Nat.add_lt_add_left inside _) held.fits)

/-- What stands at the beginning of the first block that a bank uploads is found there. -/
theorem Holds.of_first_block {block : Block} {rest : List Block} (first : u.blocks = block :: rest)
    (fits : block.address.toNat + data.length ≤ UInt16.size) (prefix_ : data <+: block.bytes) :
    u.Holds block.address data := by
  refine ⟨fits, ?_⟩
  intro offset inside
  obtain ⟨behind, whole⟩ := prefix_
  have place : (block.address + UInt16.ofNat offset).toNat = block.address.toNat + offset :=
    toNat_add_ofNat (Nat.lt_of_lt_of_le (Nat.add_lt_add_left inside _) fits)
  have reached : block.address ≤ block.address + UInt16.ofNat offset := by
    rw [UInt16.le_iff_toNat_le, place]
    exact Nat.le_add_right _ _
  have suffix : block.bytes.drop offset = data.drop offset ++ behind := by
    rw [← whole, List.drop_append_of_le_length (Nat.le_of_lt inside)]
  have some_ : data.drop offset ≠ [] := by
    simpa [List.drop_eq_nil_iff] using inside
  refine ⟨behind, ?_⟩
  rw [from?, first, List.findSome?_cons, Block.from?, if_pos reached, place,
    Nat.add_sub_cancel_left, suffix]
  cases split : data.drop offset with
  | nil => exact absurd split some_
  | cons byte others => rfl

end Uploads

/-! ### Tracks -/

namespace Track

theorem encodeFrom_ne_nil {t : Timing} {events : List Event}
    (encodable : (encodeFrom [] t events).fault = none) : (encodeFrom [] t events).bytes ≠ [] := by
  induction events generalizing t with
  | nil => simp [encodeFrom]
  | cons e rest ih =>
    by_cases last : e = .finish
    · subst last
      simp [encodeFrom]
    · obtain ⟨-, others, bytes⟩ := encodeFrom_cons_ok last encodable
      rw [bytes]
      simp [ih others]

theorem bytes?_eq_ok {track : Track} {bytes : List UInt8} (encoded : track.bytes? = .ok bytes) :
    (encodeFrom [] {} track.events).fault = none ∧
      (encodeFrom [] {} track.events).bytes = bytes := by
  simp only [bytes?, encode] at encoded
  cases faulty : (encodeFrom [] {} track.events).fault with
  | some fault => simp [faulty] at encoded
  | none => simpa [faulty] using encoded

/-- The end marker at least is encoded. -/
theorem bytes?_ne_nil {track : Track} {bytes : List UInt8} (encoded : track.bytes? = .ok bytes) :
    bytes ≠ [] := by
  obtain ⟨encodable, same⟩ := bytes?_eq_ok encoded
  rw [← same]
  exact encodeFrom_ne_nil encodable

/-- Events that are heard to their end: no call takes ticks, since it is not repeated or nothing is
uploaded at its target, and the notes leave ticks over. -/
structure Heard (u : Uploads) (limits : Limits) (events : List Event) : Prop where
  calls : ∀ e ∈ beforeEnd events, ∀ target repeats, e.call? = some (target, repeats) →
    repeats = 0 ∨ 2 ≤ limits.depth ∧ u.from? target = none
  ticks : ticksBeforeEnd events < limits.ticks

end Track

/-- A call that is not repeated, or to an address that nothing uploads, takes no ticks. -/
theorem Fragment.outcome_call_of_idle {u : Uploads} {limits : Limits} {levels : Nat}
    {callers : List UInt16} {target : UInt16} {repeats : UInt8}
    (idle : repeats = 0 ∨ 1 ≤ levels ∧ target ∉ callers ∧ u.from? target = none) (left : Nat)
    (timing : Timing) :
    (call u limits levels callers target repeats left timing).outcome = .ok 0 := by
  unfold call
  by_cases unrepeated : repeats = 0
  · rw [if_pos unrepeated]
    rfl
  · rw [if_neg unrepeated]
    rcases idle with none | ⟨deep, fresh, missing⟩
    · exact absurd none unrepeated
    · obtain ⟨more, rfl⟩ := Nat.exists_eq_add_of_le' deep
      by_cases null : target = 0
      · rw [read, if_pos null, outcome_callTicks_of_ok rfl]
        simp [repeatTicks]
      · rw [read, if_neg null, if_neg fresh]
        simp only [Uploads.require, missing]
        exact outcome_callTicks_of_missing rfl

namespace Uploads

variable {u : Uploads} {limits : Limits}

/-- An encoded track is read back in canonical form. -/
theorem track_outcome {address : UInt16} {track : Track} {bytes behind : List UInt8}
    (nonzero : address ≠ 0) (filled : track.empty = false) (encoded : track.bytes? = .ok bytes)
    (found : u.from? address = some (bytes ++ behind)) (depth : 1 ≤ limits.depth)
    (heard : Track.Heard u limits track.events) :
    (u.track limits address).outcome = .ok track.canonical := by
  obtain ⟨encodable, same⟩ := Track.bytes?_eq_ok encoded
  obtain ⟨levels, deep⟩ := Nat.exists_eq_add_of_le' depth
  have idle : ∀ e ∈ Track.beforeEnd track.events, ∀ target repeats,
      e.call? = some (target, repeats) → ∀ left timing,
        (Fragment.call u limits levels [address] target repeats left timing).outcome = .ok 0 := by
    intro e member target repeats called left timing
    refine Fragment.outcome_call_of_idle ?_ left timing
    rcases heard.calls e member target repeats called with unrepeated | ⟨deeper, missing⟩
    · exact Or.inl unrepeated
    · refine Or.inr ⟨by omega, ?_, missing⟩
      intro member
      rw [List.mem_singleton] at member
      simp [member, found] at missing
  have short : 0 + Track.ticksBeforeEnd track.events < limits.ticks := by
    simpa using heard.ticks
  obtain ⟨total, played⟩ := Track.playFrom_eq_canonicalFrom (t := {}) idle short
  have tokens : Token.lex (bytes ++ behind) = Track.tokensFrom {} track.events := by
    rw [Token.lex, ← same, Track.lexFrom_encodeFrom encodable]
  rw [Uploads.track, Report.outcome_map, fragment, deep,
    Fragment.read_of_found nonzero (List.not_mem_nil) found, tokens,
    Playback.run_tokensFrom (p := { timing := {} }) encodable rfl rfl, played]
  simp [Except.map, Track.canonical, filled]

theorem track_zero (u : Uploads) (limits : Limits) :
    (u.track limits 0).outcome = .ok .silent := by
  rw [track, Report.outcome_map, fragment, Fragment.read.eq_def, if_pos rfl]
  rfl

theorem channel_outcome {segment : UInt16} {channel : Nat} {address : UInt16} {track : Track}
    (read : (u.track limits address).outcome = .ok track) :
    (u.channel limits segment channel address).outcome = .ok track := by
  simp only [Uploads.channel, read]

end Uploads

/-! ### Segments -/

/-- The first eight words are the table. -/
theorem channelTable?_flatMap_bytes {ws : List UInt16} (long : 8 ≤ ws.length)
    (behind : List UInt8) :
    ∃ table, channelTable? (ws.flatMap bytes ++ behind) = some table ∧
      ∀ channel (h : channel < 8), ws[channel]? = some table[channel] := by
  have table : words ((ws.flatMap bytes ++ behind).take Song.tableSize) = ws.take 8 := by
    have enough : Song.tableSize ≤ (ws.flatMap bytes).length := by
      rw [length_flatMap_bytes, Song.tableSize]
      omega
    rw [List.take_append_of_le_length enough]
    exact (congrArg words (take_flatMap_bytes ws 8)).trans (words_flatMap_bytes _)
  have size : (ws.take 8).toArray.size = 8 := by
    rw [List.size_toArray, List.length_take]
    omega
  refine ⟨⟨(ws.take 8).toArray, size⟩, ?_, ?_⟩
  · rw [channelTable?, table]
    simp only [size, dite_true]
  · intro channel h
    have inside : channel < ws.length := by omega
    simp [inside]

namespace Uploads

variable {u : Uploads} {limits : Limits}

/-- A segment whose channels are all read is the segment of those tracks. -/
theorem segment_outcome {address : UInt16} {ws : List UInt16} {behind : List UInt8}
    {tracks : Vector Track 8} (long : 8 ≤ ws.length)
    (found : u.from? address = some (ws.flatMap bytes ++ behind))
    (channels : ∀ channel (h : channel < 8), ∀ word, ws[channel]? = some word →
      (u.track limits word).outcome = .ok tracks[channel]) :
    (u.segment limits address).outcome = .ok { tracks } := by
  obtain ⟨table, same, entry⟩ := channelTable?_flatMap_bytes long behind
  have read : (Vector.ofFnM fun channel : Fin 8 =>
        u.channel limits address channel table[channel]).outcome =
      .ok (Vector.ofFn fun channel : Fin 8 => tracks[channel]) :=
    Report.outcome_ofFnM fun channel =>
      channel_outcome (channels channel channel.isLt _ (entry channel channel.isLt))
  rw [segment, found, Option.bind_some, same]
  simp only [Report.outcome_bind, read]
  have whole : (Vector.ofFn fun channel : Fin 8 => tracks[channel]) = tracks :=
    Vector.ext fun i h => by simp
  rw [whole]
  rfl

theorem segments_outcome {addresses : List UInt16} {segments : List Segment}
    (length : addresses.length = segments.length)
    (each : ∀ (i : Nat) (address : UInt16) (segment : Segment), addresses[i]? = some address →
      segments[i]? = some segment → (u.segment limits address).outcome = .ok segment) :
    (u.segments limits addresses).outcome = .ok segments := by
  induction addresses generalizing segments with
  | nil =>
    cases segments with
    | nil => rfl
    | cons segment others => simp at length
  | cons address rest ih =>
    cases segments with
    | nil => simp at length
    | cons segment others =>
      have first := each 0 address segment rfl rfl
      have later := ih (Nat.succ.inj length) fun i => each (i + 1)
      unfold Uploads.segments
      simp only [Report.outcome_bind, first, later]
      rfl

end Uploads

/-! ### Songs -/

/-- Words from 0x100 on are the addresses of segments. -/
theorem SongHeader.read_append (address : UInt16) {ws : List UInt16}
    (high : ∀ w ∈ ws, 0x100 ≤ w.toNat) (before rest : List UInt16) :
    SongHeader.read address before (ws ++ rest) =
      SongHeader.read address (ws.reverse ++ before) rest := by
  induction ws generalizing before with
  | nil => rfl
  | cons w others ih =>
    have here : 0x100 ≤ w.toNat := high w (List.mem_cons_self ..)
    have nonzero : w ≠ 0 := by
      intro zero
      simp [zero] at here
    have listed : ¬w < 0x100 := by
      rw [UInt16.lt_iff_toNat_lt]
      exact Nat.not_lt.mpr here
    have step : SongHeader.read address before (w :: (others ++ rest)) =
        SongHeader.read address (w :: before) (others ++ rest) := by
      rw [SongHeader.read.eq_def]
      simp only [nonzero, listed, if_false]
    rw [List.cons_append, step, ih fun w' member => high w' (List.mem_cons_of_mem _ member)]
    simp

namespace Song

/-- The address of a segment's channel table. -/
def tableAddress (s : Song) (base : UInt16) (i : Nat) : UInt16 :=
  base + UInt16.ofNat (s.tableOffset i)

/-- The segment list is read from the words of the header. -/
theorem read_headerCells {s : Song} {base : UInt16} (address : UInt16) (rest : List UInt16)
    (high : ∀ i < s.segments.length, 0x100 ≤ (s.tableAddress base i).toNat) :
    SongHeader.read address [] (s.headerCells.map (·.value base) ++ rest) =
      .ok {
        segments := (List.range s.segments.length).map (s.tableAddress base)
        loopTarget := s.loopPoint.map (s.tableAddress base) } := by
  have listed : ∀ w ∈ (List.range s.segments.length).map (s.tableAddress base),
      0x100 ≤ w.toNat := by
    intro w member
    obtain ⟨i, inside, rfl⟩ := List.mem_map.mp member
    exact high i (List.mem_range.mp inside)
  have cells : ∀ i, (Cell.pointer (s.tableOffset i)).value base = s.tableAddress base i :=
    fun _ => rfl
  rw [headerCells, List.map_append, List.map_map, List.append_assoc]
  simp only [Function.comp_def, cells]
  rw [SongHeader.read_append address listed]
  cases s.loopPoint with
  | none => simp [SongHeader.read, Cell.value]
  | some i => simp [SongHeader.read, Cell.value, loopMarker, tableAddress]

variable {s : Song} {base : UInt16} {data : List UInt8} {tables : List Cell} {body : List UInt8}
  {u : Uploads} {limits : Limits}

theorem toNat_tableAddress (h : s.Laid base data tables body) (held : u.Holds base data) {i : Nat}
    (inside : i < s.segments.length) :
    (s.tableAddress base i).toNat = base.toNat + s.tableOffset i :=
  held.toNat_add (h.tableOffset_lt_length inside)

/-- The loop target is the address of one segment only. -/
theorem idxOf?_tableAddress (h : s.Laid base data tables body) (held : u.Holds base data) {i : Nat}
    (inside : i < s.segments.length) :
    ((List.range s.segments.length).map (s.tableAddress base)).idxOf? (s.tableAddress base i) =
      some i := by
  rw [List.idxOf?_eq_some_iff]
  refine ⟨by simpa using inside, by simp, ?_⟩
  intro j before same
  have earlier := s.tableOffset_lt before
  have place := toNat_tableAddress h held inside
  have other := toNat_tableAddress h held (Nat.lt_trans before inside)
  simp only [List.getElem_map, List.getElem_range] at same
  rw [same] at other
  omega

/-- A track stands at an address within its song's bytes; an empty one at no address. -/
inductive TrackAt (u : Uploads) (base : UInt16) (data : List UInt8) (track : Track) :
    UInt16 → Prop where
  | silent (empty : track.empty = true) : TrackAt u base data track 0
  | stands {address : UInt16} {bytes behind : List UInt8} (nonzero : address ≠ 0)
      (filled : track.empty = false) (encoded : track.bytes? = .ok bytes)
      (found : u.from? address = some (bytes ++ behind)) (low : base.toNat ≤ address.toNat)
      (high : address.toNat < base.toNat + data.length) : TrackAt u base data track address

/-- The segments of a song that is read from its place, with what its tracks are read as. A song
without segments gets a silent one. -/
def readAs (s : Song) (result : Track → Track) : List Segment :=
  if s.segments.isEmpty then [Segment.silent]
  else s.segments.map fun segment => { tracks := segment.tracks.map result }

theorem readAs_of_ne {s : Song} {result : Track → Track} (segmented : s.segments ≠ []) :
    s.readAs result = s.segments.map fun segment => { tracks := segment.tracks.map result } := by
  rw [readAs, if_neg (by simpa using segmented)]

/-- Every track stands where its cell points to. -/
theorem trackAt (h : s.Laid base data tables body) (held : u.Holds base data)
    (far : 0x100 ≤ base.toNat) {j : Nat} {track : Track} {word : UInt16}
    (stands : s.tracks[j]? = some track) (cell : (tables.map (·.value base))[j]? = some word) :
    TrackAt u base data track word := by
  have laidOut := layTracks_cell h.laid stands
  rw [List.getElem?_map] at cell
  cases empty : track.empty with
  | true =>
    rw [if_pos empty] at laidOut
    simp only [laidOut, Option.map_some, Cell.value, Option.some.injEq] at cell
    rw [← cell]
    exact .silent empty
  | false =>
    rw [if_neg (by simp [empty])] at laidOut
    obtain ⟨own, front, behind, mine, split, pointer⟩ := laidOut
    simp only [pointer, Option.map_some, Cell.value, Option.some.injEq] at cell
    have inside : s.tableOffset s.segments.length + front.length < data.length := by
      have positive := List.length_pos_iff.mpr (Track.bytes?_ne_nil mine)
      rw [h.length_data, split, List.length_append, List.length_append]
      omega
    obtain ⟨more, found⟩ := held.resolves _ inside
    rw [h.drop_track split, List.append_assoc, cell] at found
    have place := held.toNat_add inside
    rw [cell] at place
    have nonzero : word ≠ 0 := by
      intro zero
      simp only [zero, UInt16.toNat_zero] at place
      omega
    exact .stands nonzero empty mine found (by omega) (by omega)

/-- Every segment is read through its table, when its tracks are. -/
theorem segment_read (h : s.Laid base data tables body) (held : u.Holds base data)
    (far : 0x100 ≤ base.toNat) {result : Track → Track}
    (read : ∀ track ∈ s.tracks, ∀ address, TrackAt u base data track address →
      (u.track limits address).outcome = .ok (result track))
    {i : Nat} {segment : Segment} (stands : s.segments[i]? = some segment) :
    (u.segment limits (s.tableAddress base i)).outcome =
      .ok { tracks := segment.tracks.map result } := by
  have inside : i < s.segments.length := (List.getElem?_eq_some_iff.mp stands).1
  obtain ⟨behind, found⟩ := held.resolves _ (h.tableOffset_lt_length inside)
  rw [h.drop_tableOffset inside, List.append_assoc] at found
  refine Uploads.segment_outcome ?_ found ?_
  · rw [List.length_drop, List.length_map, h.length_tables]
    omega
  · intro channel below word cell
    rw [List.getElem?_drop] at cell
    rw [Vector.getElem_map]
    have listed := tracks_getElem? stands below
    exact read _ (List.mem_of_getElem? listed) _ (trackAt h held far listed cell)

end Song

namespace Uploads

variable {u : Uploads} {limits : Limits}

/-- A song is read from the place its bytes are uploaded to, with what its tracks are read as. -/
theorem song_read_as (bank : Bank) {s : Song} {base : UInt16} {encoding : SongEncoding}
    {result : Track → Track} (encoded : s.encode base = .ok encoding)
    (held : u.Holds base encoding.data) (far : 0x100 ≤ base.toNat)
    (read : ∀ track ∈ s.tracks, ∀ address, Song.TrackAt u base encoding.data track address →
      (u.track limits address).outcome = .ok (result track)) :
    (u.song limits bank base).outcome = .ok {
      name := "Song $" ++ Text.hexWord base
      segments := s.readAs result
      loopPoint := s.loopPoint
      bank
      address := base } := by
  obtain ⟨tables, body, h⟩ := Song.laid_of_encode encoded
  obtain ⟨behind, found⟩ := held.found (Song.data_ne_nil encoded)
  have nonzero : base ≠ 0 := by
    intro zero
    simp [zero] at far
  have header : SongHeader.read base [] (words (encoding.data ++ behind)) = .ok {
      segments := (List.range s.segments.length).map (s.tableAddress base)
      loopTarget := s.loopPoint.map (s.tableAddress base) } := by
    rw [h.words_data, List.map_append, List.append_assoc]
    refine Song.read_headerCells base _ fun i inside => ?_
    rw [Song.toNat_tableAddress h held inside]
    omega
  have segments : (u.segments limits
      ((List.range s.segments.length).map (s.tableAddress base))).outcome =
        .ok (s.segments.map fun segment => { tracks := segment.tracks.map result }) := by
    refine segments_outcome (by simp) ?_
    intro i address segment stands same
    have inside : i < s.segments.length := by
      simpa using (List.getElem?_eq_some_iff.mp stands).1
    simp only [List.getElem?_map, List.getElem?_range inside, Option.map_some,
      Option.some.injEq] at stands
    simp only [List.getElem?_map, List.getElem?_eq_getElem inside, Option.map_some,
      Option.some.injEq] at same
    rw [← stands, ← same]
    exact Song.segment_read h held far read (List.getElem?_eq_getElem inside)
  have loop : (s.loopPoint.map (s.tableAddress base)).bind
      (fun target => ((List.range s.segments.length).map (s.tableAddress base)).idxOf? target) =
        s.loopPoint := by
    cases point : s.loopPoint with
    | none => rfl
    | some i => exact Song.idxOf?_tableAddress h held (h.looped i point)
  have required : u.require base = .ok (encoding.data ++ behind) := by
    rw [require, found]
  rw [song, if_neg nonzero, Report.outcome_bind_of_ok required, Report.outcome_bind_of_ok header,
    Report.outcome_bind_of_ok segments]
  simp only [loop, List.isEmpty_map]
  cases s.loopPoint with
  | none => rfl
  | some i => rfl

theorem song_read (bank : Bank) {s : Song} {base : UInt16} {encoding : SongEncoding}
    {result : Track → Track} (segmented : s.segments ≠ [])
    (encoded : s.encode base = .ok encoding) (held : u.Holds base encoding.data)
    (far : 0x100 ≤ base.toNat)
    (read : ∀ track ∈ s.tracks, ∀ address, Song.TrackAt u base encoding.data track address →
      (u.track limits address).outcome = .ok (result track)) :
    (u.song limits bank base).outcome = .ok {
      name := "Song $" ++ Text.hexWord base
      segments := s.segments.map fun segment => { tracks := segment.tracks.map result }
      loopPoint := s.loopPoint
      bank
      address := base } := by
  rw [song_read_as bank encoded held far read, Song.readAs_of_ne segmented]

/-- Tracks are read in canonical form where they are heard to their end. Silent ones are read at any
depth. -/
theorem track_read_of_heard {tracks : List Track} {base : UInt16} {data : List UInt8}
    (heard : ∀ track ∈ tracks, track.empty = false →
      1 ≤ limits.depth ∧ Track.Heard u limits track.events) :
    ∀ track ∈ tracks, ∀ address, Song.TrackAt u base data track address →
      (u.track limits address).outcome = .ok track.canonical := by
  intro track member address there
  cases there with
  | silent empty => rw [track_zero, Track.canonical, if_pos empty]
  | stands nonzero filled mine found low high =>
    obtain ⟨depth, heard⟩ := heard track member filled
    exact track_outcome nonzero filled mine found depth heard

/-- A song with segments is read back in canonical form where its tracks are heard to
their end. -/
theorem song_outcome_of_heard (bank : Bank) {s : Song} {base : UInt16} {encoding : SongEncoding}
    (segmented : s.segments ≠ []) (encoded : s.encode base = .ok encoding)
    (held : u.Holds base encoding.data) (far : 0x100 ≤ base.toNat)
    (heard : ∀ track ∈ s.tracks, track.empty = false →
      1 ≤ limits.depth ∧ Track.Heard u limits track.events) :
    (u.song limits bank base).outcome = .ok {
      name := "Song $" ++ Text.hexWord base
      segments := s.canonical.segments
      loopPoint := s.loopPoint
      bank
      address := base } :=
  song_read bank segmented encoded held far (track_read_of_heard heard)

theorem song_outcome (bank : Bank) {s : Song} {base : UInt16} {encoding : SongEncoding}
    (segmented : s.segments ≠ []) (encoded : s.encode base = .ok encoding)
    (held : u.Holds base encoding.data) (far : 0x100 ≤ base.toNat) (depth : 1 ≤ limits.depth)
    (heard : ∀ track ∈ s.tracks, track.empty = false → Track.Heard u limits track.events) :
    (u.song limits bank base).outcome = .ok {
      name := "Song $" ++ Text.hexWord base
      segments := s.canonical.segments
      loopPoint := s.loopPoint
      bank
      address := base } :=
  song_outcome_of_heard bank segmented encoded held far fun track member filled =>
    ⟨depth, heard track member filled⟩

end Uploads
end SnesMusic
