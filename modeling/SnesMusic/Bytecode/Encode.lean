import SnesMusic.Song.Timing
import SnesMusic.Error

/-!
# Encoding songs

A track is encoded event by event up to its first end marker; a song is a header of segment
pointers, one channel table for each segment and the tracks. All pointers are offsets from the start
until a base address is chosen, so a song can be moved by shifting the words that its relocations
list.
-/
namespace SnesMusic

open LittleEndian

/-! ### Events -/

/-- The bytes in front of a note. -/
def Lead.bytes (n : Note) : Lead → List UInt8
  | .none => []
  | .duration => [n.duration]
  | .withVelocity => [n.duration, n.velocity]

namespace Event

/-- What keeps an event from being encoded while `t` is in force. Timing bytes matter only where
they have to be written. -/
def fault? (t : Timing) : Event → Option Unencodable
  | .note n =>
    if !isPitch n.pitch then some (.pitch n.pitch)
    else match t.lead n.timing with
      | .none => none
      | .duration => if isDuration n.duration then none else some (.duration n.duration)
      | .withVelocity =>
        if !isDuration n.duration then some (.duration n.duration)
        else if isDuration n.velocity then none
        else some (.velocity n.velocity)
  | .command c => if isOpcode c.opcode then none else some (.opcode c.opcode)
  | .call _ _ => none
  | .finish => none

/-- The timing in force after an event. -/
def after (t : Timing) : Event → Timing
  | .note n => if isPitch n.pitch then n.timing else t
  | _ => t

/-- The bytes of an event while `t` is in force. -/
def encode (t : Timing) : Event → List UInt8
  | .note n => (t.lead n.timing).bytes n ++ [n.pitch]
  | .command c => c.opcode :: c.used
  | .call address repeats => [callOpcode, lowByte address, highByte address, repeats]
  | .finish => [0]

end Event

/-! ### Tracks -/

/-- The bytes of a track with the timing after it; where an event cannot be encoded, what came
before it and why. -/
structure TrackEncoding where
  bytes : List UInt8
  timing : Timing
  fault : Option Unencodable
  deriving DecidableEq, Repr

namespace Track

/-- Encodes events up to the first end marker, which is supplied where it is missing. `emitted`
holds the bytes so far, newest first. -/
def encodeFrom (emitted : List UInt8) (t : Timing) : List Event → TrackEncoding
  | [] => { bytes := (0 :: emitted).reverse, timing := t, fault := none }
  | .finish :: _ => { bytes := (0 :: emitted).reverse, timing := t, fault := none }
  | e :: rest =>
    match e.fault? t with
    | some fault => { bytes := emitted.reverse, timing := e.after t, fault := some fault }
    | none => encodeFrom ((e.encode t).reverse ++ emitted) (e.after t) rest

/-- Encodes the track's events from a given timing on. -/
def encode (track : Track) (t : Timing) : TrackEncoding := encodeFrom [] t track.events

/-- The bytes of a track as it stands in a song, where timing starts afresh. -/
def bytes? (track : Track) : Except MusicError (List UInt8) :=
  let encoding := track.encode {}
  match encoding.fault with
  | some fault => .error (.unencodable fault)
  | none => .ok encoding.bytes

/-- What was emitted before stays in front. -/
theorem encodeFrom_eq (emitted : List UInt8) (t : Timing) (events : List Event) :
    encodeFrom emitted t events =
      let alone := encodeFrom [] t events
      { alone with bytes := emitted.reverse ++ alone.bytes } := by
  induction events generalizing emitted t with
  | nil => simp [encodeFrom]
  | cons e rest ih =>
    by_cases last : e = .finish
    · subst last
      simp [encodeFrom]
    · have unfolded : ∀ x, encodeFrom x t (e :: rest) =
          match e.fault? t with
          | some fault => { bytes := x.reverse, timing := e.after t, fault := some fault }
          | none => encodeFrom ((e.encode t).reverse ++ x) (e.after t) rest := by
        intro x
        cases e <;> first | rfl | exact absurd rfl last
      rw [unfolded, unfolded]
      cases e.fault? t with
      | some fault => simp
      | none =>
        show encodeFrom _ _ _ = _
        rw [ih ((e.encode t).reverse ++ emitted), ih ((e.encode t).reverse ++ [])]
        simp

end Track

/-! ### Songs -/

/-- A word of a song's header or channel tables. -/
inductive Cell where
  | constant (value : UInt16)
  | pointer (offset : Nat)
  deriving DecidableEq, Repr

namespace Cell

/-- The word when the song lies at `base`. -/
def value (base : UInt16) : Cell → UInt16
  | .constant value => value
  | .pointer offset => base + UInt16.ofNat offset

def isPointer : Cell → Bool
  | .constant _ => false
  | .pointer _ => true

/-- Offsets of the pointers among the cells from `position` on. -/
def relocations (position : Nat) : List Cell → List Nat
  | [] => []
  | c :: rest =>
    if c.isPointer then position :: relocations (position + 2) rest
    else relocations (position + 2) rest

end Cell

/-- A song in bytes at a base address, and the offsets of its pointers. -/
structure SongEncoding where
  data : List UInt8
  relocations : List Nat
  base : UInt16
  deriving DecidableEq, Repr

namespace Song

/-- Size of the segment list with its end: a null word, or a marker and the loop pointer. -/
def headerSize (s : Song) : Nat := s.segments.length * 2 + 2 + if s.loops then 2 else 0

/-- Size of one segment's channel table. -/
def tableSize : Nat := 16

/-- Offset of a segment's channel table. -/
def tableOffset (s : Song) (segment : Nat) : Nat := s.headerSize + segment * tableSize

/-- The word that ends the segment list of a song that loops. -/
def loopMarker : UInt16 := 0x00FF

/-- The segment pointers and the end of their list. -/
def headerCells (s : Song) : List Cell :=
  (List.range s.segments.length).map (fun i => .pointer (s.tableOffset i)) ++
    match s.loopPoint with
    | some segment => [.constant loopMarker, .pointer (s.tableOffset segment)]
    | none => [.constant 0]

/-- Lays tracks out one after the other from `position` on:
the channel table cells and the bytes. -/
def layTracks (position : Nat) : List Track → Except MusicError (List Cell × List UInt8)
  | [] => .ok ([], [])
  | track :: rest =>
    if track.empty then do
      let (cells, body) ← layTracks position rest
      return (.constant 0 :: cells, body)
    else do
      let bytes ← track.bytes?
      let (cells, body) ← layTracks (position + bytes.length) rest
      return (.pointer position :: cells, bytes ++ body)

/-- Encodes the song for an upload to `base`. -/
def encode (s : Song) (base : UInt16) : Except MusicError SongEncoding :=
  match s.loopPoint.filter (s.segments.length ≤ ·) with
  | some segment => .error (.invalidIndex .loopSegment segment)
  | none => do
    let (tables, body) ← layTracks (s.tableOffset s.segments.length) s.tracks
    let cells := s.headerCells ++ tables
    return {
      data := cells.flatMap (fun c => bytes (c.value base)) ++ body
      relocations := Cell.relocations 0 cells
      base }

end Song

/-- Adds `delta` to the word at an offset; nothing where the data has no such word. -/
def shiftWord (delta : UInt16) (data : List UInt8) (offset : Nat) : List UInt8 :=
  match data.drop offset with
  | low :: high :: rest => data.take offset ++ bytes (word low high + delta) ++ rest
  | _ => data

namespace SongEncoding

/-- Moves the song to another base address, pointer by pointer. -/
def relocate (song : SongEncoding) (base : UInt16) : SongEncoding :=
  { song with
    data := song.relocations.foldl (shiftWord (base - song.base)) song.data
    base }

end SongEncoding
end SnesMusic
