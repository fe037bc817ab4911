import SnesMusic.Bytecode.Encode

/-!
# Sizes of encoded songs

The room a song takes, counted without encoding it.
-/
namespace SnesMusic

/-- Number of bytes in front of a note. -/
def Lead.size : Lead → Nat
  | .none => 0
  | .duration => 1
  | .withVelocity => 2

/-- Number of bytes of an event while `t` is in force. -/
def Event.size (t : Timing) : Event → Nat
  | .note n => (t.lead n.timing).size + 1
  | .command c => 1 + arity c.opcode
  | .call _ _ => 4
  | .finish => 1

/-- The size of a track with the timing after it; where an event cannot be encoded, the size of what
came before it and why. -/
structure TrackSize where
  size : Nat
  timing : Timing
  fault : Option Unencodable
  deriving DecidableEq, Repr

namespace Track

/-- Counts events up to the first end marker, which counts even where it is missing. -/
def measureFrom (counted : Nat) (t : Timing) : List Event → TrackSize
  | [] => { size := counted + 1, timing := t, fault := none }
  | .finish :: _ => { size := counted + 1, timing := t, fault := none }
  | e :: rest =>
    match e.fault? t with
    | some fault => { size := counted, timing := e.after t, fault := some fault }
    | none => measureFrom (counted + e.size t) (e.after t) rest

def measure (track : Track) (t : Timing) : TrackSize := measureFrom 0 t track.events

/-- The size of a track as it stands in a song. Empty tracks take no room. -/
def requiredSpace (track : Track) : Except MusicError Nat :=
  if track.empty then .ok 0
  else
    let size := track.measure {}
    match size.fault with
    | some fault => .error (.unencodable fault)
    | none => .ok size.size

end Track

/-- The size of tracks together. The first track that cannot be encoded decides the error. -/
def tracksSpace : List Track → Except MusicError Nat
  | [] => .ok 0
  | track :: rest => do
    let size ← track.requiredSpace
    let others ← tracksSpace rest
    return size + others

/-- The size of the encoded song. The loop point counts as a word whether or not its
segment exists. -/
def Song.requiredSpace (s : Song) : Except MusicError Nat := do
  let tracks ← tracksSpace s.tracks
  return s.tableOffset s.segments.length + tracks

end SnesMusic
