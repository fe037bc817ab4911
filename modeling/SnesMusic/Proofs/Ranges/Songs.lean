import SnesMusic.Bytecode.SongReader
import SnesMusic.Proofs.Ranges.Tracks

/-!
# Songs on a machine

Song headers and channel tables are read word by word out of the image, and each track is put in its
channel of the segment. Main statements: the tracks of a channel table are those of the eight words
(`channels_eq`), and every song of an image is read within the machine's bounds (`song_eq`).
-/
namespace SnesMusic.Trapping

/-! ### Words of a table -/

theorem words_take (data : List UInt8) (n : Nat) :
    LittleEndian.words (data.take (2 * n)) = (LittleEndian.words data).take n := by
  fun_induction LittleEndian.words data generalizing n with
  | case1 low high rest ih =>
    cases n with
    | zero => rfl
    | succ n =>
      rw [Nat.mul_succ, List.take_succ_cons, List.take_succ_cons, LittleEndian.words, ih,
        List.take_succ_cons]
  | case2 data short =>
    rw [List.take_nil]
    rcases data with _ | ⟨low, _ | ⟨high, rest⟩⟩
    · rw [List.take_nil]
      rfl
    · cases n <;> rfl
    · exact absurd rfl (short low high rest)

theorem length_words (data : List UInt8) : (LittleEndian.words data).length = data.length / 2 := by
  fun_induction LittleEndian.words data with
  | case1 low high rest ih =>
    simp only [List.length_cons, ih]
    omega
  | case2 data short =>
    rcases data with _ | ⟨low, _ | ⟨high, rest⟩⟩
    · rfl
    · simp
    · exact absurd rfl (short low high rest)

theorem channelTable?_of_long {data : List UInt8} (long : 16 ≤ data.length) :
    ∃ table, channelTable? data = some table ∧
      table.toList = (LittleEndian.words data).take 8 := by
  have count : ((LittleEndian.words data).take 8).toArray.size = 8 := by
    rw [List.size_toArray, List.length_take, length_words]
    omega
  refine ⟨⟨_, count⟩, ?_, rfl⟩
  simp only [channelTable?, Song.tableSize, words_take data 8]
  exact dif_pos count

theorem channelTable?_of_short {data : List UInt8} (short : data.length < 16) :
    channelTable? data = none := by
  rw [channelTable?, dif_neg]
  rw [List.size_toArray, length_words, Song.tableSize, List.length_take]
  omega

/-! ### Channels -/

variable (image : Image) (bank : UploadBank) (limits : Limits)

/-- Reads the track at an address. -/
def track (address : UInt16) : Reading Track :=
  Fragment.track <$>
    Reading.of (fragment image bank limits limits.depth [] address limits.ticks {})

/-- Reads a segment's channel. -/
def channel (segment : UInt16) (ch : Nat) (address : UInt16) : Reading Track := Reading.of do
  let read ← track image bank limits address
  match read.outcome with
  | .ok track => pure { notices := read.notices, outcome := .ok track }
  | .error e =>
    if e.errorClass = .malformed then pure { notices := read.notices, outcome := .error e }
    else pure {
      notices := read.notices ++ [.unreadableChannel ch segment e]
      outcome := .ok .silent }

/-- Reads the tracks of a channel table, and puts each in its channel. -/
def channels (segment : UInt16) (table : List UInt16) : Reading (Vector Track 8) :=
  table.zipIdx.foldlM (fun tracks (address, ch) => do
    let track ← channel image bank limits segment ch address
    Reading.ofTrapping (setItem tracks ch track)) Segment.silent.tracks

/-- Reads the segment whose channel table is at an address. -/
def segment (address : UInt16) : Reading Segment := do
  let found ← Reading.ofTrapping (from? image bank address)
  match found.filter (16 ≤ ·.length) with
  | none => Reading.ofReport { notices := [.unresolvedSegment address], outcome := .ok .silent }
  | some data => do
    let table ← Reading.ofTrapping (words data)
    let tracks ← channels image bank limits address (table.take 8)
    pure { tracks }

/-- Reads segments in order. -/
def segments : List UInt16 → Reading (List Segment)
  | [] => pure []
  | address :: rest => do
    let first ← segment image bank limits address
    let others ← segments rest
    pure (first :: others)

/-- Reads the song whose header is at an address. -/
def song (owner : Bank) (address : UInt16) : Reading Song := do
  if address = 0 then Reading.ofReport (.fail (.invalidIndex .songAddress 0))
  else
    let data ← Reading.ofExcept (require image owner.uploadBank address)
    let header ← Reading.ofExcept (SongHeader.read address [] <$> words data)
    let read ← segments image owner.uploadBank limits header.segments
    let segments := if read.isEmpty then [Segment.silent] else read
    let loopPoint := header.loopTarget.bind fun target => header.segments.idxOf? target
    match header.loopTarget, loopPoint with
    | some target, none => Reading.ofReport (.tell (.outsideLoop address target))
    | _, _ => pure ()
    Reading.ofReport (.tell (.parsedSong address segments.length loopPoint))
    return {
      name := "Song $" ++ Text.hexWord address
      segments, loopPoint, bank := owner, address }

/-! ### What is read -/

variable {image}

theorem track_eq (fits : image.size < USize.size) (address : UInt16) :
    track image bank limits address =
      Reading.ofReport ((Uploads.ofImage image bank).track limits address) := by
  rw [track, fragment_eq fits, Reading.of_pure, Reading.map_ofReport]
  rfl

theorem channel_eq (fits : image.size < USize.size) (segment : UInt16) (ch : Nat)
    (address : UInt16) :
    channel image bank limits segment ch address =
      Reading.ofReport ((Uploads.ofImage image bank).channel limits segment ch address) := by
  rw [channel, track_eq bank limits fits, Uploads.channel]
  change Reading.of (match ((Uploads.ofImage image bank).track limits address).outcome with
    | .ok track => _
    | .error e => _) = _
  cases ((Uploads.ofImage image bank).track limits address).outcome with
  | ok track => rfl
  | error e =>
    simp only
    split <;> rfl

/-- Tracks put in their channels one by one make up the segment. -/
theorem foldlM_channels (read : Nat → UInt16 → Report Track) (table : Vector UInt16 8) {n : Nat}
    (within : n ≤ 8) (start : Vector Track 8) :
    (table.toList.take n).zipIdx.foldlM (fun tracks x => do
      let track ← read x.2 x.1
      pure (tracks.setIfInBounds x.2 track)) start = (do
      let tracks ← Vector.ofFnM fun i : Fin n => read i table[i.val]
      pure (Vector.ofFn fun i : Fin 8 => if h : i.val < n then tracks[i.val] else start[i])) := by
  induction n with
  | zero => simp
  | succ n ih =>
    have inside : n < table.toList.length := by
      rw [Vector.length_toList]
      omega
    have place : 0 + (table.toList.take n).length = n := by
      rw [Nat.zero_add, List.length_take_of_le (Nat.le_of_lt inside)]
    rw [List.take_succ_eq_append_getElem inside, List.zipIdx_append, List.foldlM_append,
      ih (by omega), Vector.ofFnM_succ, place]
    simp only [bind_assoc, pure_bind, List.zipIdx_singleton, List.foldlM_cons, List.foldlM_nil]
    refine bind_congr fun front => ?_
    rw [Vector.getElem_toList]
    refine bind_congr fun last => congrArg pure (Vector.ext fun i small => ?_)
    simp only [Vector.getElem_setIfInBounds, Vector.getElem_ofFn, Vector.getElem_push]
    rcases Nat.lt_trichotomy i n with before | rfl | behind
    · simp [before, show ¬n = i by omega, show i < n + 1 by omega]
    · simp
    · simp [show ¬n = i by omega, show ¬i < n by omega, show ¬i < n + 1 by omega]

/-- The tracks of a channel table are read and put in the eight channels. -/
theorem channels_eq (fits : image.size < USize.size) (segment : UInt16)
    (table : Vector UInt16 8) :
    channels image bank limits segment table.toList = Reading.ofReport
      (Vector.ofFnM fun ch : Fin 8 =>
        (Uploads.ofImage image bank).channel limits segment ch table[ch]) := by
  have each : ∀ x ∈ table.toList.zipIdx, ∀ tracks : Vector Track 8, (do
      let track ← channel image bank limits segment x.2 x.1
      Reading.ofTrapping (setItem tracks x.2 track)) = Reading.ofReport (do
        let track ← (Uploads.ofImage image bank).channel limits segment x.2 x.1
        pure (tracks.setIfInBounds x.2 track)) := by
    intro x member tracks
    have inside := List.snd_lt_of_mem_zipIdx member
    rw [Vector.length_toList] at inside
    rw [channel_eq bank limits fits]
    refine Reading.bind_ofReport fun track => ?_
    rw [setItem_eq inside]
    rfl
  have folded := foldlM_channels
    (fun ch address => (Uploads.ofImage image bank).channel limits segment ch address) table
    (Nat.le_refl 8) Segment.silent.tracks
  rw [List.take_of_length_le (Nat.le_of_eq table.length_toList)] at folded
  rw [channels, Reading.foldlM_ofReport each, folded]
  congr 1
  calc
    _ = (Vector.ofFnM fun ch : Fin 8 =>
          (Uploads.ofImage image bank).channel limits segment ch table[ch.val]) >>= pure := by
      refine bind_congr fun tracks => congrArg pure (Vector.ext fun i small => ?_)
      simp
    _ = _ := bind_pure _

theorem segment_eq (fits : image.size < USize.size) (address : UInt16) :
    segment image bank limits address =
      Reading.ofReport ((Uploads.ofImage image bank).segment limits address) := by
  rw [segment, from?_eq fits, Reading.ofTrapping_bind, Uploads.segment]
  cases found : (Uploads.ofImage image bank).from? address with
  | none => rfl
  | some data =>
    by_cases long : 16 ≤ data.length
    · obtain ⟨table, same, entries⟩ := channelTable?_of_long long
      rw [Option.bind_some, same, Option.filter_some, if_pos (decide_eq_true long)]
      simp only [words_eq, Reading.ofTrapping_bind]
      rw [← entries, channels_eq bank limits fits]
      exact Reading.bind_ofReport fun tracks => rfl
    · rw [Option.bind_some, channelTable?_of_short (Nat.lt_of_not_le long), Option.filter_some,
        if_neg (by simpa using long)]

theorem segments_eq (fits : image.size < USize.size) (addresses : List UInt16) :
    segments image bank limits addresses =
      Reading.ofReport ((Uploads.ofImage image bank).segments limits addresses) := by
  induction addresses with
  | nil => rfl
  | cons address rest ih =>
    rw [segments, Uploads.segments, segment_eq bank limits fits, ih]
    exact Reading.bind_ofReport fun first => Reading.bind_ofReport fun others => rfl

/-- Every song of an image is read within the machine's bounds. -/
theorem song_eq (fits : image.size < USize.size) (owner : Bank) (address : UInt16) :
    song image limits owner address =
      Reading.ofReport ((Uploads.ofImage image owner.uploadBank).song limits owner address) := by
  rw [song, Uploads.song]
  split
  · rfl
  · rw [require_eq fits, Reading.ofExcept_pure]
    refine Reading.bind_ofReport fun data => ?_
    rw [words_eq, map_pure, Reading.ofExcept_pure]
    refine Reading.bind_ofReport fun header => ?_
    rw [segments_eq _ limits fits]
    refine Reading.bind_ofReport fun read => ?_
    cases header.loopTarget with
    | none => exact Reading.bind_ofReport fun _ => rfl
    | some target =>
      simp only [Option.bind_some]
      cases header.segments.idxOf? target with
      | none => exact Reading.bind_ofReport fun _ => Reading.bind_ofReport fun _ => rfl
      | some i => exact Reading.bind_ofReport fun _ => rfl

end SnesMusic.Trapping
