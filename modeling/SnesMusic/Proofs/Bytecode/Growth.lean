import Mathlib.Data.List.InsertIdx
import SnesMusic.Proofs.Bytecode.Size

/-!
# How edits of tracks change the size of a song

A note costs its pitch and the timing it has to state, which depends on the note before it. So an
event that comes or goes also changes what its successor costs, but by no more than the stated
timing is apart: the sizes of leads satisfy a triangle inequality. Main statements: an event put in
front of the end of a track takes between one and five bytes (`Song.Gains.size`), and an event taken
out gives them back (`Song.Loses.size`).
-/
namespace SnesMusic

/-! ### Leads -/

namespace Timing

theorem size_lead (t u : Timing) : (t.lead u).size =
    if u.velocity ≠ t.velocity then 2 else if u.duration ≠ t.duration then 1 else 0 := by
  unfold lead
  split
  · rfl
  · split <;> rfl

@[simp] theorem lead_self (t : Timing) : t.lead t = .none := lead_eq_none_iff.mpr rfl

/-- What a note states at once can also be stated in two steps. -/
theorem size_lead_triangle (t u v : Timing) :
    (t.lead v).size ≤ (t.lead u).size + (u.lead v).size := by
  -- what differs between `t` and `v` differs on one side of `u`
  rw [size_lead, size_lead, size_lead]
  grind

end Timing

/-! ### Events -/

namespace Event

theorem after_of_note {t : Timing} {n : Note} (fine : (Event.note n).fault? t = none) :
    (Event.note n).after t = n.timing := by
  cases pitch : isPitch n.pitch with
  | true => simp [after, pitch]
  | false => simp [fault?, pitch] at fine

/-- An event costs more than what it spares its successor, and together with what it may cost its
successor at most five bytes: a velocity, a duration and a pitch, and the two to return to `t`. -/
theorem size_bounds {t : Timing} {e : Event} (fine : e.fault? t = none) (music : e ≠ .finish) :
    (t.lead (e.after t)).size + 1 ≤ e.size t ∧ e.size t + ((e.after t).lead t).size ≤ 5 := by
  cases e with
  | finish => exact absurd rfl music
  | call address repeats => simp [after, size, Lead.size]
  | command c =>
    have few := arity_le c.opcode
    simp only [after, size, Timing.lead_self, Lead.size]
    omega
  | note n =>
    have there := t.size_lead_le n.timing
    have back := n.timing.size_lead_le t
    rw [after_of_note fine, size]
    omega

end Event

/-! ### Tracks -/

namespace Track

/-- The events can be encoded from the timing `t` on, and take `size` bytes. -/
structure Sized (t : Timing) (events : List Event) (size : Nat) : Prop where
  fault : (measureFrom 0 t events).fault = none
  size : (measureFrom 0 t events).size = size

variable {t u : Timing} {e : Event} {events rest : List Event} {a b total : Nat}

theorem Sized.of_nil (sized : Sized t [] total) : total = 1 := sized.size.symm

theorem Sized.of_finish (sized : Sized t (.finish :: rest) total) : total = 1 := sized.size.symm

theorem Sized.of_cons (sized : Sized t (e :: rest) total) (music : e ≠ .finish) :
    e.fault? t = none ∧ ∃ later, Sized (e.after t) rest later ∧ total = e.size t + later := by
  obtain ⟨fine, counted⟩ := sized
  rw [measureFrom_cons music] at fine counted
  cases fault : e.fault? t with
  | some fault => simp [fault] at fine
  | none =>
    simp only [fault] at fine counted
    rw [measureFrom_add] at fine counted
    exact ⟨rfl, _, ⟨fine, rfl⟩, by rw [← counted, Nat.zero_add]⟩

/-- Events cost at most what it takes to move to another timing, and what they cost from there. -/
theorem Sized.le_lead (sized : Sized t events a) (other : Sized u events b) :
    a ≤ (t.lead u).size + b := by
  induction events generalizing t u a b with
  | nil =>
    rw [sized.of_nil, other.of_nil]
    exact Nat.le_add_left ..
  | cons e rest ih =>
    by_cases last : e = .finish
    · subst last
      rw [sized.of_finish, other.of_finish]
      exact Nat.le_add_left ..
    · obtain ⟨fine, later, behind, rfl⟩ := sized.of_cons last
      obtain ⟨fine', later', behind', rfl⟩ := other.of_cons last
      cases e with
      | finish => exact absurd rfl last
      | note n =>
        -- both go on from the timing of the note
        rw [Event.after_of_note fine] at behind
        rw [Event.after_of_note fine'] at behind'
        have same := ih behind behind'
        have direct := t.size_lead_triangle u n.timing
        simp only [Timing.lead_self, Lead.size] at same
        simp only [Event.size]
        omega
      | command c =>
        have same := ih behind behind'
        simp only [Event.after, Event.size] at same ⊢
        omega
      | call address repeats =>
        have same := ih behind behind'
        simp only [Event.after, Event.size] at same ⊢
        omega

/-- An event in front of the end takes between one and five bytes. -/
theorem Sized.insertIdx {index : Nat} (before : Sized t events a)
    (after : Sized t (events.insertIdx index e) b) (music : e ≠ .finish)
    (inside : index ≤ (beforeEnd events).length) : a + 1 ≤ b ∧ b ≤ a + 5 := by
  induction index generalizing t events a b with
  | zero =>
    obtain ⟨fine, later, behind, rfl⟩ := after.of_cons music
    obtain ⟨spared, most⟩ := e.size_bounds fine music
    have least := before.le_lead behind
    have more := behind.le_lead before
    omega
  | succ index ih =>
    cases events with
    | nil => simp [beforeEnd] at inside
    | cons first rest =>
      by_cases last : first = .finish
      · simp [last, beforeEnd] at inside
      · rw [beforeEnd_cons last, List.length_cons, Nat.add_le_add_iff_right] at inside
        rw [List.insertIdx_succ_cons] at after
        obtain ⟨-, later, behind, rfl⟩ := before.of_cons last
        obtain ⟨-, later', behind', rfl⟩ := after.of_cons last
        obtain ⟨least, most⟩ := ih behind behind' inside
        omega

theorem sized_of_requiredSpace {track : Track} (filled : track.empty = false)
    (space : track.requiredSpace = .ok total) : Sized {} track.events total :=
  ⟨(measure_of_requiredSpace filled space).1, (measure_of_requiredSpace filled space).2⟩

/-- An event other than an end is put into a track that is not marked empty, in front of the track's
first end or right before it, or anywhere when there is none. -/
structure Inserts (index : Nat) (e : Event) (before after : Track) : Prop where
  filled : before.empty = false
  music : e ≠ .finish
  inside : index ≤ (beforeEnd before.events).length
  done : before.insert? index e = some after

/-- An event in front of the first end is taken out of a track that is not marked empty. -/
structure Removes (index : Nat) (e : Event) (before after : Track) : Prop where
  filled : before.empty = false
  inside : index < (beforeEnd before.events).length
  done : before.remove? index = some (e, after)

/-- What stands in front of the first end is no end, and without it its place is still there. -/
theorem inside_of_eraseIdx {index : Nat} (inside : index < (beforeEnd events).length)
    (found : events[index]? = some e) :
    e ≠ .finish ∧ index ≤ (beforeEnd (events.eraseIdx index)).length := by
  induction index generalizing events with
  | zero =>
    refine ⟨?_, Nat.zero_le _⟩
    rintro rfl
    cases events with
    | nil => simp at found
    | cons first rest =>
      obtain rfl := Option.some.inj found
      simp [beforeEnd] at inside
  | succ index ih =>
    cases events with
    | nil => simp at found
    | cons first rest =>
      by_cases last : first = .finish
      · simp [last, beforeEnd] at inside
      · rw [beforeEnd_cons last, List.length_cons, Nat.add_lt_add_iff_right] at inside
        obtain ⟨music, still⟩ := ih inside found
        rw [List.eraseIdx_cons_succ, beforeEnd_cons last]
        exact ⟨music, Nat.succ_le_succ still⟩

/-- An event that was taken out can be put back. -/
theorem Removes.inserts {index : Nat} {before after : Track} (h : Removes index e before after) :
    Inserts index e after before := by
  obtain ⟨filled, inside, done⟩ := h
  simp only [remove?, Option.map_eq_some_iff, Prod.mk.injEq] at done
  obtain ⟨e, found, rfl, rfl⟩ := done
  obtain ⟨music, still⟩ := inside_of_eraseIdx inside found
  obtain ⟨short, same⟩ := List.getElem?_eq_some_iff.mp found
  refine ⟨filled, music, still, ?_⟩
  have room : index ≤ (before.events.eraseIdx index).length := by
    rw [List.length_eraseIdx_of_lt short]
    omega
  have whole : (before.events.eraseIdx index).insertIdx index e = before.events := by
    rw [← same, List.insertIdx_eraseIdx_getElem]
  rw [insert?, if_pos room, whole]
  simp [← filled]

theorem Inserts.size {index : Nat} {before after : Track} (h : Inserts index e before after)
    (sized : before.requiredSpace = .ok a) (resized : after.requiredSpace = .ok b) :
    a + 1 ≤ b ∧ b ≤ a + 5 := by
  obtain ⟨filled, music, inside, done⟩ := h
  unfold insert? at done
  split at done
  · obtain rfl := Option.some.inj done
    exact (sized_of_requiredSpace filled sized).insertIdx (sized_of_requiredSpace rfl resized)
      music inside
  · simp at done

end Track

/-! ### Songs -/

namespace Song

variable {edit : Track → Track → Prop} {before after : Song} {a b : Nat}

/-- One track of the song is edited, and nothing else. -/
def Edits (edit : Track → Track → Prop) (before after : Song) : Prop :=
  ∃ segment channel track changed, before.track? segment channel = some track ∧
    edit track changed ∧ before.modifyTrack? segment channel (fun _ => changed) = some after

/-- A note, command or call is inserted somewhere in front of the end of a track. -/
def Gains : Song → Song → Prop :=
  Edits fun track changed => ∃ index e, track.Inserts index e changed

/-- A note, command or call in front of the end of a track is removed. -/
def Loses : Song → Song → Prop :=
  Edits fun track changed => ∃ index e, track.Removes index e changed

/-- The tracks of a song with another one at a place. -/
theorem tracks_set {segment channel : Nat} (short : segment < before.segments.length)
    (seg : Segment) (inside : channel < 8) (track : Track) :
    ({ before with
      segments := before.segments.set segment { tracks := seg.tracks.set channel track } } :
        Song).tracks =
      ((before.segments.take segment).flatMap (·.tracks.toList) ++
        seg.tracks.toList.take channel) ++
      track :: (seg.tracks.toList.drop (channel + 1) ++
        (before.segments.drop (segment + 1)).flatMap (·.tracks.toList)) := by
  have reach : channel < seg.tracks.toList.length := by rwa [Vector.length_toList]
  simp only [tracks]
  rw [List.set_eq_take_append_cons_drop, if_pos short, List.flatMap_append, List.flatMap_cons,
    Vector.toList_set, List.set_eq_take_append_cons_drop, if_pos reach, List.append_assoc,
    List.append_assoc, List.cons_append]

/-- An edit leaves the tracks around its own where they are, and all else of the song. -/
theorem Edits.exchange (edited : before.Edits edit after) :
    ∃ front track changed behind, edit track changed ∧
      before.tracks = front ++ track :: behind ∧ after.tracks = front ++ changed :: behind ∧
      after.segments.length = before.segments.length ∧
      after = { before with segments := after.segments } := by
  obtain ⟨segment, channel, track, changed, there, edit, done⟩ := edited
  unfold modifyTrack? at done
  unfold track? at there
  cases found : before.segments[segment]? with
  | none => simp [found] at done
  | some seg =>
    simp only [found, Option.bind_some] at there done
    split at done
    case isFalse => simp at done
    case isTrue inside =>
    obtain rfl := Option.some.inj done
    obtain ⟨short, here⟩ := List.getElem?_eq_some_iff.mp found
    rw [Vector.getElem?_eq_getElem inside, Option.some.injEq] at there
    have old := tracks_set short seg inside track
    rw [← there, Vector.set_getElem_self, there] at old
    rw [← here, List.set_getElem_self] at old
    rw [here] at old
    exact ⟨_, track, changed, _, edit, old, tracks_set short seg inside changed, List.length_set,
      rfl⟩

theorem Edits.bank (edited : before.Edits edit after) : after.bank = before.bank := by
  obtain ⟨front, track, changed, behind, edit, old, now, count, same⟩ := edited.exchange
  rw [same]

/-- An edit changes the size of the song by as much as that of the track. -/
theorem Edits.size (edited : before.Edits edit after) (sized : before.requiredSpace = .ok a)
    (resized : after.requiredSpace = .ok b) :
    ∃ track changed own new, edit track changed ∧ track.requiredSpace = .ok own ∧
      changed.requiredSpace = .ok new ∧ b + own = a + new := by
  obtain ⟨front, track, changed, behind, edit, old, now, count, same⟩ := edited.exchange
  obtain ⟨total, space, rfl⟩ := space_of_requiredSpace sized
  obtain ⟨total', space', rfl⟩ := space_of_requiredSpace resized
  have header : after.headerSize = before.headerSize := by
    unfold headerSize
    rw [count, same]
    rfl
  have offset : after.tableOffset after.segments.length =
      before.tableOffset before.segments.length := by rw [tableOffset, header, count, tableOffset]
  rw [old] at space
  rw [now] at space'
  obtain ⟨ahead, rest, first, others, rfl⟩ := tracksSpace_append_ok space
  obtain ⟨ahead', rest', first', others', rfl⟩ := tracksSpace_append_ok space'
  obtain ⟨own, later, one, last, rfl⟩ := tracksSpace_cons_ok others
  obtain ⟨new, later', one', last', rfl⟩ := tracksSpace_cons_ok others'
  obtain rfl := Except.ok.inj (first.symm.trans first')
  obtain rfl := Except.ok.inj (last.symm.trans last')
  exact ⟨track, changed, own, new, edit, one, one', by omega⟩

theorem Gains.size (gains : before.Gains after) (sized : before.requiredSpace = .ok a)
    (resized : after.requiredSpace = .ok b) : a + 1 ≤ b ∧ b ≤ a + 5 := by
  obtain ⟨track, changed, own, new, ⟨index, e, inserts⟩, old, now, sum⟩ :=
    Edits.size gains sized resized
  have grown := inserts.size old now
  omega

theorem Loses.size (loses : before.Loses after) (sized : before.requiredSpace = .ok a)
    (resized : after.requiredSpace = .ok b) : b + 1 ≤ a ∧ a ≤ b + 5 := by
  obtain ⟨track, changed, own, new, ⟨index, e, removes⟩, old, now, sum⟩ :=
    Edits.size loses sized resized
  have shrunk := removes.inserts.size now old
  omega

end Song
end SnesMusic
