import SnesMusic.Bytecode.SongReader
import SnesMusic.Proofs.Report

/-!
# Songs that were read

Where the parts of a song come from. Main statement: a song that is read has segments, and each of
its tracks is silent or read from an address in the song's channel tables (`tracks_of_song`).
-/
namespace SnesMusic

open LittleEndian

namespace Uploads

/-- The addresses in the channel tables of the song at an address. -/
def channels (u : Uploads) (address : UInt16) : List UInt16 :=
  match (u.from? address).map fun bytes => SongHeader.read address [] (words bytes) with
  | some (.ok header) => header.segments.flatMap fun segment =>
    match (u.from? segment).bind channelTable? with
    | some table => table.toList
    | none => []
  | _ => []

variable {u : Uploads} {limits : Limits}

theorem track_of_channel {segment : UInt16} {channel : Nat} {address : UInt16} {track : Track}
    (read : (u.channel limits segment channel address).outcome = .ok track) :
    track = .silent ∨ (u.track limits address).outcome = .ok track := by
  unfold Uploads.channel at read
  cases outcome : (u.track limits address).outcome with
  | ok found =>
    simp only [outcome, Except.ok.injEq] at read
    exact Or.inr (by rw [read])
  | error e =>
    simp only [outcome] at read
    split at read
    · simp at read
    · simp only [Except.ok.injEq] at read
      exact Or.inl read.symm

theorem tracks_of_segment {address : UInt16} {segment : Segment}
    (read : (u.segment limits address).outcome = .ok segment) :
    ∀ track ∈ segment.tracks.toList, track = .silent ∨
      ∃ table, (u.from? address).bind channelTable? = some table ∧
        ∃ word ∈ table.toList, (u.track limits word).outcome = .ok track := by
  intro track member
  unfold Uploads.segment at read
  cases found : (u.from? address).bind channelTable? with
  | none =>
    simp only [found, Except.ok.injEq] at read
    subst read
    left
    simpa [Segment.silent] using member
  | some table =>
    simp only [found] at read
    obtain ⟨tracks, each, read⟩ := Report.bind_ok read
    rw [Report.outcome_pure, Except.ok.injEq] at read
    subst read
    obtain ⟨i, inside, rfl⟩ := List.mem_iff_getElem.mp member
    rw [Vector.length_toList] at inside
    have here := Report.ofFnM_ok each ⟨i, inside⟩
    rw [Vector.getElem_toList]
    rcases track_of_channel here with silent | track
    · exact Or.inl silent
    · exact Or.inr ⟨table, rfl, table[i], by simp, track⟩

theorem segments_ok {addresses : List UInt16} {segments : List Segment}
    (read : (u.segments limits addresses).outcome = .ok segments) :
    segments.length = addresses.length ∧
      ∀ segment ∈ segments, ∃ address ∈ addresses,
        (u.segment limits address).outcome = .ok segment := by
  induction addresses generalizing segments with
  | nil =>
    simp only [Uploads.segments, Report.outcome_ok, Except.ok.injEq] at read
    subst read
    simp
  | cons address rest ih =>
    unfold Uploads.segments at read
    obtain ⟨first, here, read⟩ := Report.bind_ok read
    obtain ⟨others, later, read⟩ := Report.bind_ok read
    rw [Report.outcome_pure, Except.ok.injEq] at read
    subst read
    obtain ⟨length, origin⟩ := ih later
    refine ⟨by rw [List.length_cons, List.length_cons, length], ?_⟩
    intro segment member
    rcases List.mem_cons.mp member with rfl | member
    · exact ⟨address, List.mem_cons_self .., here⟩
    · obtain ⟨origin, listed, read⟩ := origin segment member
      exact ⟨origin, List.mem_cons_of_mem _ listed, read⟩

/-- The parts of a song that is read. -/
theorem song_ok {bank : Bank} {address : UInt16} {song : Song}
    (read : (u.song limits bank address).outcome = .ok song) :
    address ≠ 0 ∧ song.bank = bank ∧ song.address = address ∧
      ∃ bytes header segments, u.from? address = some bytes ∧
        SongHeader.read address [] (words bytes) = .ok header ∧
        (u.segments limits header.segments).outcome = .ok segments ∧
        song.segments = (if segments.isEmpty then [Segment.silent] else segments) ∧
        song.loopPoint = header.loopTarget.bind (header.segments.idxOf? ·) := by
  unfold Uploads.song at read
  split at read
  · simp at read
  · rename_i nonzero
    obtain ⟨bytes, found, read⟩ := Report.bind_ok read
    obtain ⟨header, listed, read⟩ := Report.bind_ok read
    obtain ⟨segments, each, read⟩ := Report.bind_ok read
    have stands : u.from? address = some bytes := by
      rw [Report.outcome_ofExcept, require] at found
      cases place : u.from? address with
      | none => simp [place] at found
      | some there =>
        simp only [place, Except.ok.injEq] at found
        rw [found]
    simp only at read
    split at read
    · obtain ⟨_, -, read⟩ := Report.bind_ok read
      obtain ⟨_, -, read⟩ := Report.bind_ok read
      rw [Report.outcome_pure, Except.ok.injEq] at read
      subst read
      exact ⟨nonzero, rfl, rfl, bytes, header, segments, stands, listed, each, rfl, rfl⟩
    · obtain ⟨_, -, read⟩ := Report.bind_ok read
      rw [Report.outcome_pure, Except.ok.injEq] at read
      subst read
      exact ⟨nonzero, rfl, rfl, bytes, header, segments, stands, listed, each, rfl, rfl⟩

theorem segments_of_song {bank : Bank} {address : UInt16} {song : Song}
    (read : (u.song limits bank address).outcome = .ok song) : song.segments ≠ [] := by
  obtain ⟨-, -, -, bytes, header, segments, -, -, -, same, -⟩ := song_ok read
  rw [same]
  cases segments <;> simp

/-- Every track of a song that is read is silent or read from the song's channel tables. -/
theorem tracks_of_song {bank : Bank} {address : UInt16} {song : Song}
    (read : (u.song limits bank address).outcome = .ok song) :
    ∀ track ∈ song.tracks, track = .silent ∨
      ∃ word ∈ u.channels address, (u.track limits word).outcome = .ok track := by
  obtain ⟨-, -, -, bytes, header, segments, found, listed, each, same, -⟩ := song_ok read
  intro track member
  rw [Song.tracks, List.mem_flatMap] at member
  obtain ⟨segment, within, member⟩ := member
  rw [same] at within
  cases none : segments.isEmpty with
  | true =>
    rw [if_pos none, List.mem_singleton] at within
    subst within
    left
    simpa [Segment.silent] using member
  | false =>
    rw [if_neg (by simp [none])] at within
    obtain ⟨origin, addressed, segmentRead⟩ := (segments_ok each).2 segment within
    rcases tracks_of_segment segmentRead track member with
      silent | ⟨table, tabled, word, entered, trackRead⟩
    · exact Or.inl silent
    · refine Or.inr ⟨word, ?_, trackRead⟩
      simp only [channels, found, Option.map_some, listed]
      refine List.mem_flatMap.mpr ⟨origin, addressed, ?_⟩
      rw [tabled]
      exact entered

/-- Without depth nothing but silence is read. -/
theorem depth_of_track {address : UInt16} {track : Track}
    (read : (u.track limits address).outcome = .ok track) (filled : track.empty = false) :
    1 ≤ limits.depth := by
  rw [Uploads.track, Report.outcome_map, fragment, Fragment.read.eq_def] at read
  by_cases null : address = 0
  · rw [if_pos null] at read
    obtain rfl : Track.silent = track := Except.ok.inj read
    simp [Track.silent] at filled
  · rw [if_neg null, if_neg List.not_mem_nil] at read
    cases deep : limits.depth with
    | zero => simp [deep, Except.map] at read
    | succ levels => omega

theorem depth_of_song {bank : Bank} {address : UInt16} {song : Song}
    (read : (u.song limits bank address).outcome = .ok song) :
    ∀ track ∈ song.tracks, track.empty = false → 1 ≤ limits.depth := by
  intro track member filled
  rcases tracks_of_song read track member with rfl | ⟨word, -, trackRead⟩
  · simp [Track.silent] at filled
  · exact depth_of_track trackRead filled

/-- The loop of a song that is read leads to one of its segments. -/
theorem loopPoint_of_song {bank : Bank} {address : UInt16} {song : Song}
    (read : (u.song limits bank address).outcome = .ok song) :
    ∀ segment, song.loopPoint = some segment → segment < song.segments.length := by
  obtain ⟨-, -, -, bytes, header, segments, -, -, each, same, loop⟩ := song_ok read
  intro segment point
  rw [loop, Option.bind_eq_some_iff] at point
  obtain ⟨target, -, found⟩ := point
  obtain ⟨inside, -⟩ := List.findIdx?_eq_some_iff_getElem.mp found
  rw [← (segments_ok each).1] at inside
  cases segments with
  | nil => simp at inside
  | cons first others => rwa [same]

end Uploads

/-- A song that is read from an image is read from the blocks of its bank. -/
theorem Image.song_ok {image : Image} {bank : Bank} {limits : Limits} {address : UInt16}
    {read : Song} (parsed : (image.song bank limits address).outcome = .ok read) :
    ((Uploads.ofImage image bank.uploadBank).song limits bank address).outcome = .ok read := by
  unfold Image.song at parsed
  obtain ⟨uploads, found, parsed⟩ := Report.bind_ok parsed
  rw [Report.outcome_ofExcept, Image.uploads] at found
  by_cases loaded : image.isLoaded = true
  · rw [if_pos loaded, Except.ok.injEq] at found
    rw [found]
    exact parsed
  · simp [loaded] at found

end SnesMusic
