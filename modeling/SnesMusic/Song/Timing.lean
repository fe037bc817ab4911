import SnesMusic.Song.Basic

/-!
# Timing

Duration and velocity of a channel stick: a note states them only where they differ from those of
the note before. `Timing` is that state, `Lead` what has to precede a note.
-/
namespace SnesMusic

/-- The duration and velocity in force on a channel. -/
structure Timing where
  duration : UInt8 := 0
  velocity : UInt8 := 0
  deriving DecidableEq, Repr

/-- The timing bytes in front of an encoded note. -/
inductive Lead where
  | none
  | duration
  | withVelocity
  deriving DecidableEq, Repr

namespace Timing

/-- What has to precede a note played at `next` when `t` is in force. Velocity is stated only
together with duration. -/
def lead (t next : Timing) : Lead :=
  if next.velocity ≠ t.velocity then .withVelocity
  else if next.duration ≠ t.duration then .duration
  else .none

theorem lead_eq_none_iff {t next : Timing} : t.lead next = .none ↔ next = t := by
  cases t
  cases next
  simp only [lead, mk.injEq]
  split
  · simp_all
  · split <;> simp_all

/-- The note of the given pitch at timing `t`; `emitted` is the timing of the note before it. -/
def note (t emitted : Timing) (pitch : UInt8) : Note :=
  { pitch, duration := t.duration, velocity := t.velocity, timed := emitted.lead t ≠ .none }

end Timing

/-- The timing a note is played at. -/
def Note.timing (n : Note) : Timing := { duration := n.duration, velocity := n.velocity }

end SnesMusic
