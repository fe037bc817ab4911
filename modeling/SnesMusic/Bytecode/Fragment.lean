import SnesMusic.Bytecode.Token
import SnesMusic.Song.Timing
import SnesMusic.Upload

/-!
# Fragments

A fragment is the bytecode at an address: a channel's track, or a subroutine that a track calls.
Playing its tokens gives its events and the ticks it takes, those of called fragments included.
Calls nest to a limited depth, a fragment that calls itself is refused, and playing stops when the
ticks are used up.
-/
namespace SnesMusic

/-- Bounds on the work of one reading. -/
structure Limits where
  /-- How deep calls may nest, the track itself counted. -/
  depth : Nat := 100
  /-- A track is not read further once this many ticks have passed. -/
  ticks : Nat := 50000
  deriving DecidableEq, Repr

/-- Tick counts end here; larger ones are cut down to it. -/
def maxTicks : Nat := UInt32.size - 1

def addTicks (a b : Nat) : Nat := min (a + b) maxTicks

def repeatTicks (ticks : Nat) (times : UInt8) : Nat := min (ticks * times.toNat) maxTicks

/-- A fragment's events and the ticks it takes. -/
structure Fragment where
  track : Track
  ticks : Nat
  deriving DecidableEq, Repr

/-- A fragment while it is played: the timing in force, the timing of the last note, the ticks
passed, and the events and notices so far, newest first. -/
structure Playback where
  timing : Timing
  emitted : Timing := {}
  ticks : Nat := 0
  events : List Event := []
  notices : List Notice := []
  deriving DecidableEq, Repr

namespace Playback

def push (p : Playback) (e : Event) : Playback := { p with events := e :: p.events }

/-- The fragment played so far. -/
def done (p : Playback) : Report Fragment :=
  { notices := p.notices.reverse
    outcome := .ok { track := Track.ofEvents p.events.reverse, ticks := p.ticks } }

def fail (p : Playback) (e : MusicError) : Report Fragment :=
  { notices := p.notices.reverse, outcome := .error e }

/-- A timing token sets the duration, and the velocity where it states one. -/
def setTiming (p : Playback) (duration : UInt8) (velocity : Option UInt8) : Playback :=
  { p with timing := { duration, velocity := velocity.getD p.timing.velocity } }

/-- A note is played at the timing in force. A tie takes no ticks of its own. -/
def note (p : Playback) (pitch : UInt8) : Playback :=
  let n := p.timing.note p.emitted pitch
  { p with
    emitted := p.timing
    ticks := addTicks p.ticks (Event.note n).ticks
    events := .note n :: p.events }

/-- A byte without meaning in the fragment at `origin` is passed over. -/
def skip (p : Playback) (origin : UInt16) (index : Nat) (byte : UInt8) : Playback :=
  { p with notices := .skippedByte byte (origin + UInt16.ofNat index) :: p.notices }

/-- Plays the tokens of the fragment at `origin`. `call` plays a subroutine call: its target, how
often, the ticks that are left and the timing in force; it gives the ticks of all repetitions. -/
def run (call : UInt16 → UInt8 → Nat → Timing → Report Nat) (origin : UInt16) (budget : Nat) :
    Playback → List Token → Report Fragment
  | p, [] => p.done
  | p, token :: rest =>
    if budget ≤ p.ticks then p.done
    else match token with
      | .finish => (p.push .finish).done
      | .timing duration velocity => run call origin budget (p.setTiming duration velocity) rest
      | .note pitch => run call origin budget (p.note pitch) rest
      | .unknown index byte => run call origin budget (p.skip origin index byte) rest
      | .truncated opcode => p.fail (.malformed (.truncatedCommand opcode origin))
      | .command c =>
        if c.isCall then
          let called := call c.target c.repeats (budget - p.ticks) p.timing
          let p := { p with notices := called.notices.reverse ++ p.notices }
          match called.outcome with
          | .error e => p.fail e
          | .ok ticks =>
            let p := { p with ticks := addTicks p.ticks ticks }
            run call origin budget (p.push (Event.ofCommand c)) rest
        else run call origin budget (p.push (Event.ofCommand c)) rest

end Playback

namespace Fragment

/-- The ticks of a call, given the reading of its target. A target that nothing uploads is passed
over and takes no ticks. -/
def callTicks (repeats : UInt8) (called : Report Fragment) : Report Nat :=
  match called.outcome with
  | .ok fragment => {
    notices := called.notices
    outcome := .ok (repeatTicks fragment.ticks repeats) }
  | .error (.addressNotFound address bank) => {
    notices := called.notices ++ [.ignoredCall (.addressNotFound address bank)]
    outcome := .ok 0 }
  | .error e => { notices := called.notices, outcome := .error e }

/-- Reads the fragment at an address. `levels` more calls may nest, and `callers` are the fragments
that are being read; address zero stands for an empty track. A call starts from the caller's timing
and leaves it unchanged; its ticks are shared evenly among its repetitions, and without repetitions
its target is not read. -/
def read (uploads : Uploads) (limits : Limits) (levels : Nat) (callers : List UInt16)
    (address : UInt16) (budget : Nat) (timing : Timing) : Report Fragment :=
  if address = 0 then .ok { track := .silent, ticks := 0 }
  else if address ∈ callers then .fail (.circularReference address)
  else match levels with
    | 0 => .fail (.depthExceeded limits.depth)
    | levels + 1 =>
      match uploads.require address with
      | .error e => .fail e
      | .ok bytes =>
        let call (target : UInt16) (repeats : UInt8) (left : Nat) (timing : Timing) : Report Nat :=
          if repeats = 0 then .ok 0
          else callTicks repeats <|
            read uploads limits levels (address :: callers) target (left / repeats.toNat) timing
        Playback.run call address budget { timing } (Token.lex bytes)

end Fragment

namespace Uploads

/-- Reads the fragment that a channel begins with. -/
def fragment (u : Uploads) (limits : Limits) (address : UInt16) : Report Fragment :=
  Fragment.read u limits limits.depth [] address limits.ticks {}

/-- Reads the track at an address; address zero stands for an empty one. -/
def track (u : Uploads) (limits : Limits) (address : UInt16) : Report Track :=
  Fragment.track <$> u.fragment limits address

end Uploads

/-- Reads a track from an image. -/
def Image.track (image : Image) (bank : UploadBank) (limits : Limits) (address : UInt16) :
    Report Track := do
  let uploads ← Report.ofExcept (image.uploads bank)
  uploads.track limits address

end SnesMusic
