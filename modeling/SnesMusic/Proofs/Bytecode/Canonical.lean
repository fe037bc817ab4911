import SnesMusic.Bytecode.Size

/-!
# Canonical songs

Several songs have the same bytecode. The canonical one among them is the one that reading yields:
events end with the first end marker, every subroutine call is a call and no raw command, parameters
beyond an opcode's arity are zero, `timed` marks the notes that state their timing, and an empty
track carries no events. Main statements: a song and its canonical form have the same encoding
(`encode_canonical`), and the canonical form of a canonical song is the song itself
(`canonical_canonical`).
-/
namespace SnesMusic

open LittleEndian

/-! ### Commands -/

namespace Command

theorem arity_cases (opcode : UInt8) :
    arity opcode = 0 ∨ arity opcode = 1 ∨ arity opcode = 2 ∨ arity opcode = 3 := by
  have bound := arity_le opcode
  omega

@[simp] theorem opcode_ofParams (opcode : UInt8) (params : List UInt8) :
    (ofParams opcode params).opcode = opcode := rfl

/-- What counts of a command's parameters is what counts of those it was made from. -/
theorem used_ofParams (opcode : UInt8) (a b c : UInt8) :
    (ofParams opcode [a, b, c]).used = [a, b, c].take (arity opcode) := by
  simp only [used, ofParams, params]
  rcases arity_cases opcode with few | few | few | few
  all_goals
    rw [few]
    rfl

theorem used_ofParams_params (c : Command) : (ofParams c.opcode c.params).used = c.used :=
  used_ofParams c.opcode c.first c.second c.third

/-- Dropping the parameters that do not count a second time changes nothing. -/
theorem ofParams_params (opcode : UInt8) (params : List UInt8) :
    ofParams opcode (ofParams opcode params).params = ofParams opcode params := by
  rcases arity_cases opcode with few | few | few | few
  all_goals
    rcases params with _ | ⟨a, _ | ⟨b, _ | ⟨c, rest⟩⟩⟩
    all_goals
      simp only [ofParams, Command.params, few]
      rfl

/-- The parameters that count are all that a command is made from. -/
theorem ofParams_used (c : Command) : ofParams c.opcode c.used = ofParams c.opcode c.params := by
  simp only [ofParams, used, List.take_take, Nat.min_self]

@[simp] theorem isCall_ofParams (opcode : UInt8) (params : List UInt8) :
    (ofParams opcode params).isCall = (opcode == callOpcode) := rfl

/-- A call has room for an address and a count. -/
theorem arity_callOpcode : arity callOpcode = 3 := by decide

theorem ofParams_callOpcode (a b c : UInt8) :
    ofParams callOpcode [a, b, c] =
      { opcode := callOpcode, first := a, second := b, third := c } := by
  simp [ofParams, arity_callOpcode]

end Command

/-! ### Events -/

namespace Event

/-- The event as it is read back when `t` is the timing of the note before it. -/
def canonical (t : Timing) : Event → Event
  | .note n => .note (n.timing.note t n.pitch)
  | .command c => .ofCommand (.ofParams c.opcode c.params)
  | e => e

/-- A raw command is a call exactly when its opcode is that of calls. -/
theorem canonical_command_of_call (t : Timing) {c : Command} (h : c.opcode = callOpcode) :
    canonical t (.command c) = .call c.target c.repeats := by
  obtain ⟨opcode, a, b, d⟩ := c
  subst h
  simp only [canonical, ofCommand, Command.params, Command.ofParams_callOpcode, Command.isCall,
    beq_self_eq_true, if_true]

theorem canonical_command_of_ne (t : Timing) {c : Command} (h : c.opcode ≠ callOpcode) :
    canonical t (.command c) = .command (.ofParams c.opcode c.params) := by
  have other : (Command.ofParams c.opcode c.params).isCall = false := by
    simpa using h
  simp only [canonical, ofCommand, other, Bool.false_eq_true, if_false]

theorem encode_canonical (t : Timing) (e : Event) : (e.canonical t).encode t = e.encode t := by
  cases e with
  | note n => rfl
  | call address repeats => rfl
  | finish => rfl
  | command c =>
    by_cases h : c.opcode = callOpcode
    · obtain ⟨opcode, a, b, d⟩ := c
      subst h
      rw [canonical_command_of_call t rfl]
      simp only [encode, Command.target, Command.repeats, lowByte_word, highByte_word,
        Command.used, Command.params, Command.arity_callOpcode, List.take_succ_cons, List.take_zero]
    · rw [canonical_command_of_ne t h, encode, encode, Command.used_ofParams_params,
        Command.opcode_ofParams]

theorem fault?_canonical (t : Timing) (e : Event) : (e.canonical t).fault? t = e.fault? t := by
  cases e with
  | note n => rfl
  | call address repeats => rfl
  | finish => rfl
  | command c =>
    by_cases h : c.opcode = callOpcode
    · rw [canonical_command_of_call t h]
      simp only [fault?, h]
      rfl
    · rw [canonical_command_of_ne t h]
      rfl

theorem after_canonical (t : Timing) (e : Event) : (e.canonical t).after t = e.after t := by
  cases e with
  | note n => rfl
  | call address repeats => rfl
  | finish => rfl
  | command c =>
    by_cases h : c.opcode = callOpcode
    · rw [canonical_command_of_call t h]
      rfl
    · rw [canonical_command_of_ne t h]
      rfl

theorem canonical_eq_finish_iff (t : Timing) (e : Event) :
    e.canonical t = .finish ↔ e = .finish := by
  cases e with
  | note n => simp [canonical]
  | call address repeats => simp [canonical]
  | finish => simp [canonical]
  | command c =>
    by_cases h : c.opcode = callOpcode
    · simp [canonical_command_of_call t h]
    · simp [canonical_command_of_ne t h]

theorem canonical_canonical (t : Timing) (e : Event) :
    (e.canonical t).canonical t = e.canonical t := by
  cases e with
  | note n => rfl
  | call address repeats => rfl
  | finish => rfl
  | command c =>
    by_cases h : c.opcode = callOpcode
    · rw [canonical_command_of_call t h]
      rfl
    · have kept : (Command.ofParams c.opcode c.params).opcode ≠ callOpcode := h
      rw [canonical_command_of_ne t h, canonical_command_of_ne t kept]
      exact congrArg Event.command (Command.ofParams_params _ _)

end Event

/-! ### Tracks -/

namespace Track

/-- The events of an encoded track as they are read back, from the timing `t` on: each in canonical
form up to the first end marker, which is supplied where it is missing. -/
def canonicalFrom (t : Timing) : List Event → List Event
  | [] => [.finish]
  | .finish :: _ => [.finish]
  | e :: rest => e.canonical t :: canonicalFrom (e.after t) rest

/-- The events in front of the first end marker. -/
def beforeEnd : List Event → List Event
  | [] => []
  | .finish :: _ => []
  | e :: rest => e :: beforeEnd rest

/-- The ticks that the notes in front of the first end marker take. -/
def ticksBeforeEnd (events : List Event) : Nat :=
  (beforeEnd events).foldr (fun e later => e.ticks + later) 0

/-- The track as it is read back from its place in a song. -/
def canonical (track : Track) : Track :=
  if track.empty then .silent else .ofEvents (canonicalFrom {} track.events)

theorem canonicalFrom_cons {e : Event} (h : e ≠ .finish) (t : Timing) (rest : List Event) :
    canonicalFrom t (e :: rest) = e.canonical t :: canonicalFrom (e.after t) rest := by
  cases e <;> first | rfl | exact absurd rfl h

theorem beforeEnd_cons {e : Event} (h : e ≠ .finish) (rest : List Event) :
    beforeEnd (e :: rest) = e :: beforeEnd rest := by
  cases e <;> first | rfl | exact absurd rfl h

theorem ticksBeforeEnd_cons {e : Event} (h : e ≠ .finish) (rest : List Event) :
    ticksBeforeEnd (e :: rest) = e.ticks + ticksBeforeEnd rest := by
  simp only [ticksBeforeEnd, beforeEnd_cons h, List.foldr_cons]

theorem encodeFrom_cons {e : Event} (h : e ≠ .finish) (emitted : List UInt8) (t : Timing)
    (rest : List Event) :
    encodeFrom emitted t (e :: rest) =
      match e.fault? t with
      | some fault => { bytes := emitted.reverse, timing := e.after t, fault := some fault }
      | none => encodeFrom ((e.encode t).reverse ++ emitted) (e.after t) rest := by
  cases e <;> first | rfl | exact absurd rfl h

theorem measureFrom_cons {e : Event} (h : e ≠ .finish) (counted : Nat) (t : Timing)
    (rest : List Event) :
    measureFrom counted t (e :: rest) =
      match e.fault? t with
      | some fault => { size := counted, timing := e.after t, fault := some fault }
      | none => measureFrom (counted + e.size t) (e.after t) rest := by
  cases e <;> first | rfl | exact absurd rfl h

/-- Reading back leaves nothing to encode differently. -/
theorem encodeFrom_canonicalFrom (emitted : List UInt8) (t : Timing) (events : List Event) :
    encodeFrom emitted t (canonicalFrom t events) = encodeFrom emitted t events := by
  induction events generalizing emitted t with
  | nil => rfl
  | cons e rest ih =>
    by_cases last : e = .finish
    · subst last
      rfl
    · have kept : e.canonical t ≠ .finish := fun h => last ((e.canonical_eq_finish_iff t).mp h)
      rw [canonicalFrom_cons last, encodeFrom_cons kept, encodeFrom_cons last,
        Event.fault?_canonical, Event.after_canonical, Event.encode_canonical]
      cases e.fault? t with
      | some fault => rfl
      | none => exact ih _ _

theorem canonicalFrom_canonicalFrom (t : Timing) (events : List Event) :
    canonicalFrom t (canonicalFrom t events) = canonicalFrom t events := by
  induction events generalizing t with
  | nil => rfl
  | cons e rest ih =>
    by_cases last : e = .finish
    · subst last
      rfl
    · have kept : e.canonical t ≠ .finish := fun h => last ((e.canonical_eq_finish_iff t).mp h)
      rw [canonicalFrom_cons last, canonicalFrom_cons kept, Event.after_canonical,
        Event.canonical_canonical, ih]

@[simp] theorem canonical_empty (track : Track) : track.canonical.empty = track.empty := by
  unfold canonical
  split <;> simp_all [silent, ofEvents]

theorem bytes?_canonical {track : Track} (h : track.empty = false) :
    track.canonical.bytes? = track.bytes? := by
  simp only [canonical, h, Bool.false_eq_true, if_false, bytes?, encode, ofEvents,
    encodeFrom_canonicalFrom]

theorem canonical_canonical (track : Track) : track.canonical.canonical = track.canonical := by
  cases h : track.empty with
  | true => simp [canonical, h, silent]
  | false => simp [canonical, h, ofEvents, canonicalFrom_canonicalFrom]

end Track

/-! ### Songs -/

def Segment.canonical (s : Segment) : Segment := { tracks := s.tracks.map Track.canonical }

theorem Segment.canonical_canonical (s : Segment) : s.canonical.canonical = s.canonical := by
  simp [canonical, Function.comp_def, Track.canonical_canonical]

namespace Song

/-- The song with its tracks as they are read back from its encoding. -/
def canonical (s : Song) : Song := { s with segments := s.segments.map Segment.canonical }

theorem tracks_canonical (s : Song) : s.canonical.tracks = s.tracks.map Track.canonical := by
  simp only [tracks, canonical, Segment.canonical, List.flatMap_map, List.map_flatMap,
    Vector.toList_map]

theorem layTracks_map_canonical (position : Nat) (tracks : List Track) :
    layTracks position (tracks.map Track.canonical) = layTracks position tracks := by
  induction tracks generalizing position with
  | nil => rfl
  | cons track rest ih =>
    simp only [List.map_cons, layTracks, Track.canonical_empty, ih]
    cases h : track.empty with
    | true => rfl
    | false => rw [Track.bytes?_canonical h]

@[simp] theorem length_segments_canonical (s : Song) :
    s.canonical.segments.length = s.segments.length := List.length_map _

@[simp] theorem headerSize_canonical (s : Song) : s.canonical.headerSize = s.headerSize := by
  unfold headerSize
  rw [length_segments_canonical]
  rfl

@[simp] theorem tableOffset_canonical (s : Song) (segment : Nat) :
    s.canonical.tableOffset segment = s.tableOffset segment := by
  rw [tableOffset, tableOffset, headerSize_canonical]

@[simp] theorem headerCells_canonical (s : Song) : s.canonical.headerCells = s.headerCells := by
  simp only [headerCells, length_segments_canonical, tableOffset_canonical]
  rfl

/-- A song and its canonical form have the same encoding, or fail to have one for the
same reason. -/
theorem encode_canonical (s : Song) (base : UInt16) : s.canonical.encode base = s.encode base := by
  unfold encode
  rw [tracks_canonical, layTracks_map_canonical, headerCells_canonical, tableOffset_canonical,
    length_segments_canonical]
  rfl

theorem canonical_canonical (s : Song) : s.canonical.canonical = s.canonical := by
  simp [canonical, Function.comp_def, Segment.canonical_canonical]

end Song
end SnesMusic
