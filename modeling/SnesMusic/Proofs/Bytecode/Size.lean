import SnesMusic.Proofs.Bytecode.Canonical
import SnesMusic.Proofs.Bytecode.SongLayout

/-!
# Sizes

Main statement: the size of a song that can be encoded is the length of its encoding
(`requiredSpace_of_encode`).
-/
namespace SnesMusic

theorem Timing.size_lead_le (t next : Timing) : (t.lead next).size ≤ 2 := by
  cases t.lead next <;> decide

theorem Event.length_encode (t : Timing) (e : Event) : (e.encode t).length = e.size t := by
  cases e with
  | note n => cases lead : t.lead n.timing <;> simp [encode, size, lead, Lead.bytes, Lead.size]
  | command c => rw [encode, size, List.length_cons, Command.length_used, Nat.add_comm]
  | call address repeats => rfl
  | finish => rfl

namespace Track

/-- Counting goes along with encoding. -/
theorem measureFrom_eq (emitted : List UInt8) (t : Timing) (events : List Event) :
    measureFrom emitted.length t events =
      { size := (encodeFrom emitted t events).bytes.length
        timing := (encodeFrom emitted t events).timing
        fault := (encodeFrom emitted t events).fault } := by
  induction events generalizing emitted t with
  | nil => simp [measureFrom, encodeFrom]
  | cons e rest ih =>
    by_cases last : e = .finish
    · subst last
      simp [measureFrom, encodeFrom]
    · rw [measureFrom_cons last, encodeFrom_cons last]
      cases e.fault? t with
      | some fault => simp
      | none =>
        have counted : emitted.length + e.size t = ((e.encode t).reverse ++ emitted).length := by
          rw [List.length_append, List.length_reverse, e.length_encode, Nat.add_comm]
        simp only
        rw [counted, ih]

/-- What was counted before only adds to the size. -/
theorem measureFrom_add (counted : Nat) (t : Timing) (events : List Event) :
    measureFrom counted t events =
      { measureFrom 0 t events with size := counted + (measureFrom 0 t events).size } := by
  have whole := measureFrom_eq (List.replicate counted 0) t events
  have alone := measureFrom_eq [] t events
  rw [List.length_replicate, encodeFrom_eq] at whole
  rw [List.length_nil] at alone
  rw [whole, alone]
  simp

/-- Only tracks that can be encoded have a size. -/
theorem measure_of_requiredSpace {track : Track} {size : Nat} (filled : track.empty = false)
    (space : track.requiredSpace = .ok size) :
    (track.measure {}).fault = none ∧ (track.measure {}).size = size := by
  simp only [requiredSpace, filled, Bool.false_eq_true, if_false] at space
  cases fault : (track.measure {}).fault with
  | some fault => simp [fault] at space
  | none => simpa [fault] using space

theorem requiredSpace_of_bytes? {track : Track} {bytes : List UInt8} (filled : track.empty = false)
    (encoded : track.bytes? = .ok bytes) : track.requiredSpace = .ok bytes.length := by
  have counted := measureFrom_eq [] {} track.events
  simp only [bytes?, encode] at encoded
  simp only [requiredSpace, filled, measure, Bool.false_eq_true, if_false]
  rw [List.length_nil] at counted
  rw [counted]
  cases fault : (encodeFrom [] {} track.events).fault with
  | some fault => simp [fault] at encoded
  | none =>
    simp only [fault, Except.ok.injEq] at encoded
    rw [← encoded]

end Track

theorem tracksSpace_cons_ok {track : Track} {rest : List Track} {size : Nat}
    (space : tracksSpace (track :: rest) = .ok size) :
    ∃ own others, track.requiredSpace = .ok own ∧ tracksSpace rest = .ok others ∧
      size = own + others := by
  unfold tracksSpace at space
  cases own : track.requiredSpace with
  | error e => simp [own, bind, Except.bind] at space
  | ok first =>
    cases others : tracksSpace rest with
    | error e => simp [own, others, bind, Except.bind] at space
    | ok second =>
      simp only [own, others, bind, Except.bind, pure, Except.pure, Except.ok.injEq] at space
      exact ⟨first, second, rfl, rfl, space.symm⟩

theorem requiredSpace_of_mem {tracks : List Track} {size : Nat}
    (space : tracksSpace tracks = .ok size) :
    ∀ track ∈ tracks, ∃ own, track.requiredSpace = .ok own := by
  induction tracks generalizing size with
  | nil => simp
  | cons track rest ih =>
    obtain ⟨own, others, first, behind, -⟩ := tracksSpace_cons_ok space
    rw [List.forall_mem_cons]
    exact ⟨⟨own, first⟩, ih behind⟩

theorem tracksSpace_append_ok {front behind : List Track} {size : Nat}
    (space : tracksSpace (front ++ behind) = .ok size) :
    ∃ own others, tracksSpace front = .ok own ∧ tracksSpace behind = .ok others ∧
      size = own + others := by
  induction front generalizing size with
  | nil => exact ⟨0, size, rfl, space, (Nat.zero_add size).symm⟩
  | cons track rest ih =>
    obtain ⟨first, later, alone, after, sum⟩ := tracksSpace_cons_ok space
    obtain ⟨own, others, joined, left, parts⟩ := ih after
    refine ⟨first + own, others, ?_, left, by omega⟩
    rw [tracksSpace, alone, joined]
    rfl

namespace Song

theorem tracksSpace_of_layTracks {position : Nat} {tracks : List Track} {cells : List Cell}
    {body : List UInt8} (laid : layTracks position tracks = .ok (cells, body)) :
    tracksSpace tracks = .ok body.length := by
  induction tracks generalizing position cells body with
  | nil =>
    simp only [layTracks, Except.ok.injEq, Prod.mk.injEq] at laid
    rw [← laid.2]
    rfl
  | cons track rest ih =>
    obtain ⟨empty, later, others, -⟩ | ⟨filled, bytes, later, behind, encoded, others, -, rfl⟩ :=
      layTracks_cons_ok laid
    · rw [tracksSpace, ih others]
      simp [Track.requiredSpace, empty, bind, Except.bind, pure, Except.pure]
    · rw [tracksSpace, ih others, Track.requiredSpace_of_bytes? filled encoded,
        List.length_append]
      rfl

/-- The room a song is said to take is the room it takes. -/
theorem requiredSpace_of_encode {s : Song} {base : UInt16} {encoding : SongEncoding}
    (encoded : s.encode base = .ok encoding) : s.requiredSpace = .ok encoding.data.length := by
  obtain ⟨tables, body, h⟩ := laid_of_encode encoded
  rw [requiredSpace, tracksSpace_of_layTracks h.laid, h.length_data]
  rfl

/-- The size of a song is that of its tables and its tracks. -/
theorem space_of_requiredSpace {s : Song} {size : Nat} (space : s.requiredSpace = .ok size) :
    ∃ total, tracksSpace s.tracks = .ok total ∧
      size = s.tableOffset s.segments.length + total := by
  unfold requiredSpace at space
  cases tracks : tracksSpace s.tracks with
  | error e => simp [tracks, bind, Except.bind] at space
  | ok total =>
    simp only [tracks, bind, Except.bind, pure, Except.pure, Except.ok.injEq] at space
    exact ⟨total, rfl, space.symm⟩

/-- A song has at least the end of its segment list. -/
theorem two_le_requiredSpace {s : Song} {size : Nat} (space : s.requiredSpace = .ok size) :
    2 ≤ size := by
  obtain ⟨total, -, rfl⟩ := space_of_requiredSpace space
  unfold tableOffset headerSize
  omega

end Song
end SnesMusic
