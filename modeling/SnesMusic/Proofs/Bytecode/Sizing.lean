import SnesMusic.Proofs.Bytecode.Encodable
import SnesMusic.Proofs.Bytecode.Relocations
import SnesMusic.Proofs.Bytecode.SongRoundTrip

/-!
# Which songs have a size and an encoding

What a song must be like to be sized and encoded, in terms of its events. Main statement: a song has
a size exactly when its events have bytes, an encoding exactly when it also loops to one of its
segments, and the encoding then has that size (`encode_as_sized`).
-/
namespace SnesMusic

/-! ### Events -/

/-- Bytes that can be written as a duration or a velocity. -/
theorem isDuration_iff_le (b : UInt8) : isDuration b = true ↔ 0x01 ≤ b ∧ b ≤ 0x7F := by
  rw [isDuration_iff, UInt8.le_iff_toNat_le, UInt8.le_iff_toNat_le]
  simp only [UInt8.reduceToNat]
  omega

namespace Event

/-- The event has bytes behind a note of timing `t`. Timing has to be in range only where it
changes, but a new velocity is written behind the duration, be that new or not. -/
def Expressible (t : Timing) : Event → Prop
  | .note n =>
    (0x80 ≤ n.pitch ∧ n.pitch ≤ 0xC9) ∧
    (n.duration ≠ t.duration → 0x01 ≤ n.duration ∧ n.duration ≤ 0x7F) ∧
    (n.velocity ≠ t.velocity →
      (0x01 ≤ n.velocity ∧ n.velocity ≤ 0x7F) ∧ 0x01 ≤ n.duration ∧ n.duration ≤ 0x7F)
  | .command c => 0xE0 ≤ c.opcode
  | .call _ _ => True
  | .finish => True

/-- A note is expressible when its pitch is one and the bytes in front of it can be written. -/
theorem expressible_note_iff (t : Timing) (n : Note) :
    Expressible t (.note n) ↔
      isPitch n.pitch = true ∧
        match t.lead n.timing with
        | .none => True
        | .duration => isDuration n.duration = true
        | .withVelocity => isDuration n.duration = true ∧ isDuration n.velocity = true := by
  have pitch : isPitch n.pitch = true ↔ 0x80 ≤ n.pitch ∧ n.pitch ≤ 0xC9 := by
    rw [isPitch, Bool.and_eq_true, decide_eq_true_eq, decide_eq_true_eq, lowestPitch, restPitch]
  rw [Expressible, pitch, ← isDuration_iff_le, ← isDuration_iff_le]
  apply and_congr_right
  intro _
  by_cases louder : n.velocity ≠ t.velocity
  · have lead : t.lead n.timing = .withVelocity := if_pos louder
    rw [lead]
    constructor
    · rintro ⟨-, both⟩
      exact (both louder).symm
    · rintro ⟨duration, velocity⟩
      exact ⟨fun _ => duration, fun _ => ⟨velocity, duration⟩⟩
  · by_cases longer : n.duration ≠ t.duration
    · have lead : t.lead n.timing = .duration := (if_neg louder).trans (if_pos longer)
      rw [lead]
      constructor
      · rintro ⟨duration, -⟩
        exact duration longer
      · intro duration
        exact ⟨fun _ => duration, fun changed => absurd changed louder⟩
    · have lead : t.lead n.timing = .none := (if_neg louder).trans (if_neg longer)
      rw [lead]
      exact iff_of_true ⟨fun changed => absurd changed longer, fun changed => absurd changed louder⟩
        trivial

theorem fault?_eq_none_iff (t : Timing) (e : Event) : e.fault? t = none ↔ e.Expressible t := by
  cases e with
  | note n =>
    rw [expressible_note_iff, fault?]
    cases isPitch n.pitch with
    | false => simp
    | true =>
      cases t.lead n.timing with
      | none => simp
      | duration => simp
      | withVelocity =>
        cases isDuration n.duration <;> cases isDuration n.velocity <;> simp
  | command c =>
    have opcode : isOpcode c.opcode = true ↔ 0xE0 ≤ c.opcode := by
      rw [isOpcode, firstOpcode, decide_eq_true_eq]
    rw [fault?, Expressible, ← opcode]
    cases isOpcode c.opcode <;> simp
  | call address repeats => exact iff_of_true rfl trivial
  | finish => exact iff_of_true rfl trivial

end Event

/-! ### Tracks -/

namespace Track

/-- The timing behind events that follow a note of timing `t`: that of the last note. -/
def lastTiming (t : Timing) : List Event → Timing
  | [] => t
  | .note n :: rest => lastTiming n.timing rest
  | _ :: rest => lastTiming t rest

/-- Every event up to the first end marker has bytes behind those in front of it. An empty track is
not written at all. -/
def Expressible (track : Track) : Prop :=
  track.empty = false → ∀ front e behind, beforeEnd track.events = front ++ e :: behind →
    e.Expressible (lastTiming {} front)

/-- An expressible event leaves its own timing behind. -/
theorem lastTiming_cons {t : Timing} {e : Event} (expressible : e.Expressible t)
    (rest : List Event) : lastTiming t (e :: rest) = lastTiming (e.after t) rest := by
  cases e with
  | note n =>
    have pitch := ((Event.expressible_note_iff t n).mp expressible).1
    rw [Event.after, if_pos pitch]
    rfl
  | command c => rfl
  | call address repeats => rfl
  | finish => rfl

theorem fault_encodeFrom_eq_none_iff (t : Timing) (events : List Event) :
    (encodeFrom [] t events).fault = none ↔
      ∀ front e behind, beforeEnd events = front ++ e :: behind →
        e.Expressible (lastTiming t front) := by
  -- The timing in force carries the induction. It is that of the last note only as long as every
  -- event so far is expressible: one without a pitch is no note and leaves the timing alone.
  induction events generalizing t with
  | nil => simp [encodeFrom, beforeEnd]
  | cons e rest ih =>
    by_cases last : e = .finish
    · subst last
      simp [encodeFrom, beforeEnd]
    · rw [encodeFrom_cons last, beforeEnd_cons last]
      cases faulty : e.fault? t with
      | some fault =>
        have stuck : ¬ e.Expressible t := by
          rw [← Event.fault?_eq_none_iff, faulty]
          simp
        refine iff_of_false (by simp) fun all => stuck ?_
        exact all [] e (beforeEnd rest) rfl
      | none =>
        have expressible := (Event.fault?_eq_none_iff t e).mp faulty
        simp only
        rw [encodeFrom_eq]
        simp only
        rw [ih (e.after t)]
        constructor
        · intro later front other behind split
          cases front with
          | nil =>
            cases split
            exact expressible
          | cons first front =>
            obtain ⟨rfl, shorter⟩ := List.cons.inj split
            rw [lastTiming_cons expressible]
            exact later front other behind shorter
        · intro all front other behind split
          rw [← lastTiming_cons expressible]
          exact all (e :: front) other behind (by rw [split, List.cons_append])

/-- A track can be encoded exactly when its events have bytes. -/
theorem encodable_iff_expressible (track : Track) : track.Encodable ↔ track.Expressible :=
  forall_congr' fun _ => fault_encodeFrom_eq_none_iff {} track.events

end Track

/-! ### Songs -/

namespace Song

/-- A song has a size exactly when its tracks can be encoded. -/
theorem requiredSpace_ok_iff (s : Song) :
    (∃ size, s.requiredSpace = .ok size) ↔ ∀ track ∈ s.tracks, track.Encodable := by
  constructor
  · rintro ⟨size, space⟩
    exact encodable_of_requiredSpace space
  · intro encodable
    obtain ⟨⟨cells, body⟩, laid⟩ := layTracks_of_encodable encodable 0
    refine ⟨s.tableOffset s.segments.length + body.length, ?_⟩
    rw [requiredSpace, tracksSpace_of_layTracks laid]
    rfl

theorem encode_ok_iff (s : Song) (base : UInt16) :
    (∃ encoding, s.encode base = .ok encoding) ↔
      (∀ track ∈ s.tracks, track.Encodable) ∧
        ∀ segment, s.loopPoint = some segment → segment < s.segments.length := by
  constructor
  · rintro ⟨encoding, encoded⟩
    obtain ⟨tables, body, h⟩ := laid_of_encode encoded
    exact ⟨encodable_of_requiredSpace (requiredSpace_of_encode encoded), h.looped⟩
  · rintro ⟨encodable, looped⟩
    exact encode_of_encodable looped encodable base

/-- Sizing and encoding go together: a song has a size exactly when its tracks are expressible and
an encoding exactly when moreover it loops, if at all, to one of its segments. The encoding is then
as long as the size says and its relocations are its pointers. -/
theorem encode_as_sized (s : Song) (base : UInt16) :
    ((∃ size, s.requiredSpace = .ok size) ↔ ∀ track ∈ s.tracks, track.Expressible) ∧
    ((∃ encoding, s.encode base = .ok encoding) ↔
      (∀ track ∈ s.tracks, track.Expressible) ∧
        ∀ segment, s.loopPoint = some segment → segment < s.segments.length) ∧
    ∀ encoding, s.encode base = .ok encoding →
      s.requiredSpace = .ok encoding.data.length ∧ s.Relocated encoding := by
  have same : (∀ track ∈ s.tracks, track.Encodable) ↔ ∀ track ∈ s.tracks, track.Expressible :=
    forall₂_congr fun track _ => track.encodable_iff_expressible
  rw [← same]
  refine ⟨s.requiredSpace_ok_iff, s.encode_ok_iff base, ?_⟩
  intro encoding encoded
  exact ⟨requiredSpace_of_encode encoded, relocated_of_encode encoded⟩

end Song

/-! ### An example -/

/-- A song in which a note, a tie and a rest at another velocity stand in front of an end marker,
and a note without a pitch behind it. -/
theorem short_song_sized :
    shortSong.encode 0xD000 = .ok shortEncoding ∧ shortSong.requiredSpace = .ok 33 ∧
      shortSong.Relocated shortEncoding ∧ ∀ track ∈ shortSong.tracks, track.Expressible := by
  have encoded : shortSong.encode 0xD000 = .ok shortEncoding := rfl
  obtain ⟨-, expressible, sized⟩ := shortSong.encode_as_sized 0xD000
  obtain ⟨space, relocated⟩ := sized shortEncoding encoded
  exact ⟨encoded, space, relocated, (expressible.mp ⟨_, encoded⟩).1⟩

end SnesMusic
