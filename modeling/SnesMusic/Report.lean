import SnesMusic.Error

/-!
# Notices and reports

Operations tell what they met on the way as a list of notices beside their result. A `Report` is a
result that may be a failure; notices that came before the failure are kept. Main statement: the
outcome of a sequence is the sequence of the outcomes, so that results are reasoned about without
the notices.
-/
namespace SnesMusic

open Text

/-- How much a notice matters. -/
inductive Severity where
  | error
  | warning
  | information
  | detail
  deriving DecidableEq, Repr

/-- What an operation tells on its way. -/
inductive Notice where
  | skippedByte (byte : UInt8) (address : UInt16)
  | ignoredCall (error : MusicError)
  | unresolvedSegment (segment : UInt16)
  | unreadableChannel (channel : Nat) (segment : UInt16) (error : MusicError)
  | outsideLoop (song target : UInt16)
  | parsedSong (song : UInt16) (segments : Nat) (loopPoint : Option Nat)
  | expandedMusic (hook : Nat)
  | unreadableSong (name : String) (address : UInt16) (bank : Bank) (error : MusicError)
  | unreadableTable (bank : Bank) (error : MusicError)
  | tableSlots (bank : Bank) (slots : Nat)
  | noSongBlock (bank : Bank)
  | loaded (songs instruments samples : Nat)
  | savedSongs (count : Nat) (bank : Bank) (size : Nat)
  | surplusInstruments (count : Nat)
  | unplacedSample (index : Nat)
  | unsizedSong (name : String) (error : MusicError)
  | sampleRate (rate : UInt32) (name : String)
  | importedSong (name : String) (lines bytes warnings errors : Nat)
  deriving DecidableEq, Repr

namespace Notice

def severity : Notice → Severity
  | .skippedByte .. | .ignoredCall .. | .outsideLoop .. | .parsedSong .. | .tableSlots ..
  | .noSongBlock .. | .importedSong .. => .detail
  | .unresolvedSegment .. | .unreadableChannel .. | .unreadableSong .. | .unreadableTable ..
  | .surplusInstruments .. | .unplacedSample .. | .unsizedSong .. | .sampleRate .. => .warning
  | .expandedMusic .. | .loaded .. | .savedSongs .. => .information

/-- The text of an optional segment index. -/
def loopText : Option Nat → String
  | none => "None"
  | some index => s!"Some({index})"

/-- The wording of a notice. -/
def message : Notice → String
  | .skippedByte byte address =>
    s!"Skipping unknown byte 0x{hexByte byte} at ${hexWord address}"
  | .ignoredCall error => s!"Ignoring subroutine call: {error.message}"
  | .unresolvedSegment segment => s!"Segment ${hexWord segment} is not resolvable, leaving it empty"
  | .unreadableChannel channel segment error =>
    s!"Channel {channel} of segment ${hexWord segment}: {error.message}"
  | .outsideLoop song target =>
    s!"Song ${hexWord song} loops to ${hexWord target}, outside its segment list"
  | .parsedSong song segments loopPoint =>
    s!"Parsed song ${hexWord song}: {segments} segments, loop {loopText loopPoint}"
  | .expandedMusic hook => s!"Expanded music patch detected (hook ${hexUpper 6 hook})"
  | .unreadableSong name address bank error =>
    s!"Failed to parse song '{name}' at ${hexWord address} ({bank.name}): {error.message}"
  | .unreadableTable bank error => s!"Failed to read {bank.name} song table: {error.message}"
  | .tableSlots bank slots => s!"{bank.name} song table: {slots} slots"
  | .noSongBlock bank => s!"No {bank.name} song block found"
  | .loaded songs instruments samples =>
    s!"Loaded {songs} songs, {instruments} instruments, {samples} samples"
  | .savedSongs count bank size => s!"Saved {count} songs to the {bank.name} bank ({size} bytes)"
  | .surplusInstruments count =>
    s!"Only the first 25 of {count} instruments fit the instrument table"
  | .unplacedSample index =>
    s!"Sample {index} has no slot in the sample directory and was not written"
  | .unsizedSong name error => s!"Cannot size song '{name}': {error.message}"
  | .sampleRate rate name =>
    s!"Sample rate {rate.toNat} Hz of `{name}` differs from the DSP rate; pitch will need adjusting"
  | .importedSong name lines bytes warnings errors =>
    s!"Imported '{name}': {lines} lines, {bytes} bytes, {warnings} warnings, {errors} errors"

end Notice

/-- The notices of an operation and its result. -/
structure Told (α : Type) where
  value : α
  notices : List Notice := []
  deriving DecidableEq, Repr

/-- Does something for each element in order. -/
def Told.each {α β : Type} (f : α → Told β) (xs : List α) : Told (List β) :=
  let all := xs.map f
  { value := all.map (·.value), notices := all.flatMap (·.notices) }

@[simp] theorem Told.value_each {α β : Type} (f : α → Told β) (xs : List α) :
    (Told.each f xs).value = xs.map fun x => (f x).value := by
  simp [Told.each, Function.comp_def]

/-- The notices of an operation and its result or failure. -/
structure Report (α : Type) where
  notices : List Notice
  outcome : Except MusicError α

namespace Report

def ok {α : Type} (a : α) : Report α := { notices := [], outcome := .ok a }

def fail {α : Type} (e : MusicError) : Report α := { notices := [], outcome := .error e }

/-- A report of one notice. -/
def tell (n : Notice) : Report Unit := { notices := [n], outcome := .ok () }

/-- Goes on with the result, if there is one. -/
def andThen {α β : Type} (r : Report α) (f : α → Report β) : Report β :=
  match r.outcome with
  | .error e => { notices := r.notices, outcome := .error e }
  | .ok a => { notices := r.notices ++ (f a).notices, outcome := (f a).outcome }

instance : Monad Report where
  pure := ok
  bind := andThen

@[simp] theorem outcome_pure {α : Type} (a : α) : (pure a : Report α).outcome = .ok a := rfl

@[simp] theorem outcome_ok {α : Type} (a : α) : (ok a).outcome = .ok a := rfl

@[simp] theorem outcome_fail {α : Type} (e : MusicError) :
    (fail e : Report α).outcome = .error e := rfl

@[simp] theorem outcome_tell (n : Notice) : (tell n).outcome = .ok () := rfl

@[simp] theorem outcome_bind {α β : Type} (r : Report α) (f : α → Report β) :
    (r >>= f).outcome = r.outcome >>= fun a => (f a).outcome := by
  obtain ⟨notices, outcome⟩ := r
  cases outcome <;> rfl

@[simp] theorem outcome_map {α β : Type} (g : α → β) (r : Report α) :
    (g <$> r).outcome = r.outcome.map g := by
  obtain ⟨notices, outcome⟩ := r
  cases outcome <;> rfl

/-- The report of a result that comes with no notices. -/
def ofExcept {α : Type} (outcome : Except MusicError α) : Report α := { notices := [], outcome }

@[simp] theorem outcome_ofExcept {α : Type} (outcome : Except MusicError α) :
    (ofExcept outcome).outcome = outcome := rfl

end Report
end SnesMusic
