import SnesMusic.Bytecode.Encode
import SnesMusic.Bytecode.Fragment

/-!
# Reading songs

A song's header lists the addresses of its segments' channel tables and ends with a null word or
with a marker and the address it loops to. A channel table holds the addresses of eight tracks.
-/
namespace SnesMusic

open LittleEndian

/-- The segment list of a song. -/
structure SongHeader where
  segments : List UInt16
  loopTarget : Option UInt16
  deriving DecidableEq, Repr

/-- Reads the words of a segment list; `before` holds the segments so far, newest first. A word
below 0x100 that is not null announces a loop. -/
def SongHeader.read (address : UInt16) (before : List UInt16) :
    List UInt16 → Except MusicError SongHeader
  | [] => .error (.malformed (.unterminatedSegments address))
  | word :: rest =>
    if word = 0 then .ok { segments := before.reverse, loopTarget := none }
    else if word < 0x100 then
      match rest with
      | target :: _ => .ok { segments := before.reverse, loopTarget := some target }
      | [] => .error (.malformed (.missingLoopTarget address))
    else SongHeader.read address (word :: before) rest

/-- The eight words of a channel table, when the bytes hold that many. -/
def channelTable? (bytes : List UInt8) : Option (Vector UInt16 8) :=
  let table := (words (bytes.take Song.tableSize)).toArray
  if h : table.size = 8 then some ⟨table, h⟩ else none

namespace Uploads

/-- Reads a segment's channel. Malformed bytecode fails the song; a channel that cannot be found
stays silent. -/
def channel (u : Uploads) (limits : Limits) (segment : UInt16) (channel : Nat) (address : UInt16) :
    Report Track :=
  let read := u.track limits address
  match read.outcome with
  | .ok track => { notices := read.notices, outcome := .ok track }
  | .error e =>
    if e.errorClass = .malformed then { notices := read.notices, outcome := .error e }
    else {
      notices := read.notices ++ [.unreadableChannel channel segment e]
      outcome := .ok .silent }

/-- Reads the segment whose channel table is at an address. -/
def segment (u : Uploads) (limits : Limits) (address : UInt16) : Report Segment :=
  match (u.from? address).bind channelTable? with
  | none => { notices := [.unresolvedSegment address], outcome := .ok .silent }
  | some table => do
    let tracks ← Vector.ofFnM fun ch : Fin 8 => u.channel limits address ch table[ch]
    return { tracks }

/-- Reads segments in order. -/
def segments (u : Uploads) (limits : Limits) : List UInt16 → Report (List Segment)
  | [] => .ok []
  | address :: rest => do
    let first ← u.segment limits address
    let others ← u.segments limits rest
    return first :: others

/-- Reads the song whose header is at an address. A song without segments gets a silent one. A loop
to an address outside the segment list is dropped. -/
def song (u : Uploads) (limits : Limits) (bank : Bank) (address : UInt16) : Report Song := do
  if address = 0 then Report.fail (.invalidIndex .songAddress 0)
  else
    let bytes ← Report.ofExcept (u.require address)
    let header ← Report.ofExcept (SongHeader.read address [] (words bytes))
    let read ← u.segments limits header.segments
    let segments := if read.isEmpty then [Segment.silent] else read
    let loopPoint := header.loopTarget.bind fun target => header.segments.idxOf? target
    match header.loopTarget, loopPoint with
    | some target, none => Report.tell (.outsideLoop address target)
    | _, _ => pure ()
    Report.tell (.parsedSong address segments.length loopPoint)
    return {
      name := "Song $" ++ Text.hexWord address
      segments, loopPoint, bank, address }

end Uploads

/-- Reads a song from an image. -/
def Image.song (image : Image) (bank : Bank) (limits : Limits) (address : UInt16) :
    Report Song := do
  let uploads ← Report.ofExcept (image.uploads bank.uploadBank)
  uploads.song limits bank address

end SnesMusic
