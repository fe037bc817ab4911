import SnesMusic.Proofs.Bytecode.Size

/-!
# Songs that can be encoded

What keeps a song from being encoded. Main statements: a song whose tracks can be encoded and whose
loop leads to one of its segments is encoded for every address (`encode_of_encodable`), and of a
song that has a size it is the loop alone that can fail (`encode_of_requiredSpace`).
-/
namespace SnesMusic

namespace Track

/-- The track can be encoded as it stands in a song. Empty tracks are not looked at. -/
def Encodable (track : Track) : Prop :=
  track.empty = false → (encodeFrom [] {} track.events).fault = none

theorem bytes?_of_encodable {track : Track} (encodable : track.Encodable)
    (filled : track.empty = false) :
    track.bytes? = .ok (encodeFrom [] {} track.events).bytes := by
  simp only [bytes?, encode, encodable filled]

/-- Tracks with a size can be encoded. -/
theorem encodable_of_requiredSpace {track : Track} {size : Nat}
    (space : track.requiredSpace = .ok size) : track.Encodable := by
  intro filled
  obtain ⟨none, -⟩ := measure_of_requiredSpace filled space
  have counted := measureFrom_eq [] {} track.events
  rw [List.length_nil] at counted
  rw [measure, counted] at none
  exact none

end Track

namespace Song

/-- Tracks that can be encoded can be laid out one after the other. -/
theorem layTracks_of_encodable {tracks : List Track}
    (encodable : ∀ track ∈ tracks, track.Encodable) (position : Nat) :
    ∃ laid, layTracks position tracks = .ok laid := by
  induction tracks generalizing position with
  | nil => exact ⟨_, rfl⟩
  | cons track rest ih =>
    have later := ih fun other member => encodable other (List.mem_cons_of_mem _ member)
    cases empty : track.empty with
    | true =>
      obtain ⟨laid, others⟩ := later position
      rw [layTracks_of_empty empty, others]
      exact ⟨_, rfl⟩
    | false =>
      have bytes := Track.bytes?_of_encodable (encodable track (List.mem_cons_self ..)) empty
      obtain ⟨laid, others⟩ := later (position + (Track.encodeFrom [] {} track.events).bytes.length)
      rw [layTracks_of_nonempty empty, bytes]
      simp only [others]
      exact ⟨_, rfl⟩

variable {s : Song}

theorem encode_of_encodable
    (looped : ∀ segment, s.loopPoint = some segment → segment < s.segments.length)
    (encodable : ∀ track ∈ s.tracks, track.Encodable) (base : UInt16) :
    ∃ encoding, s.encode base = .ok encoding := by
  have valid : s.loopPoint.filter (s.segments.length ≤ ·) = none := by
    rw [Option.filter_eq_none_iff]
    intro segment point
    simpa using looped segment point
  obtain ⟨laid, tracks⟩ :=
    layTracks_of_encodable encodable (s.tableOffset s.segments.length)
  rw [encode, valid]
  simp only [tracks]
  exact ⟨_, rfl⟩

theorem encodable_of_requiredSpace {size : Nat} (space : s.requiredSpace = .ok size) :
    ∀ track ∈ s.tracks, track.Encodable := by
  obtain ⟨total, tracks, -⟩ := space_of_requiredSpace space
  intro track member
  obtain ⟨own, sized⟩ := requiredSpace_of_mem tracks track member
  exact Track.encodable_of_requiredSpace sized

/-- A song that has a size is encoded in as many bytes, unless it loops to a segment it lacks. -/
theorem encode_of_requiredSpace {size : Nat} (space : s.requiredSpace = .ok size) (base : UInt16) :
    (∃ encoding, s.encode base = .ok encoding ∧ encoding.data.length = size) ∨
      ∃ segment, s.loopPoint = some segment ∧ s.segments.length ≤ segment ∧
        s.encode base = .error (.invalidIndex .loopSegment segment) := by
  cases valid : s.loopPoint.filter (s.segments.length ≤ ·) with
  | none =>
    have looped : ∀ segment, s.loopPoint = some segment → segment < s.segments.length := by
      intro segment point
      simpa [point, Option.filter] using valid
    obtain ⟨encoding, encoded⟩ :=
      encode_of_encodable looped (encodable_of_requiredSpace space) base
    have same := requiredSpace_of_encode encoded
    rw [space, Except.ok.injEq] at same
    exact Or.inl ⟨encoding, encoded, same.symm⟩
  | some segment =>
    obtain ⟨point, beyond⟩ := Option.filter_eq_some_iff.mp valid
    refine Or.inr ⟨segment, point, by simpa using beyond, ?_⟩
    rw [encode, valid]

end Song
end SnesMusic
