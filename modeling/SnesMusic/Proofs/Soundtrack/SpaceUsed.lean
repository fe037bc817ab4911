import SnesMusic.Proofs.Bytecode.Growth
import SnesMusic.Proofs.Soundtrack.DirtyBanks
import SnesMusic.Proofs.Soundtrack.SpaceReport

/-!
# The used bytes follow the music

Main statement: a note, command or call more makes a song and the reported use of its bank grow by
one to five bytes, one less makes them shrink likewise, and a song more always takes room
(`space_follows_music`).
-/
namespace SnesMusic

/-! ### Sums of sizes -/

theorem used_cons {song : Song} {size : Nat} (sized : song.requiredSpace = .ok size)
    (rest : List Song) :
    (sizeSongs (song :: rest)).value.1 = size + (sizeSongs rest).value.1 := by
  rw [sizeSongs, sized]

/-- Songs without a size count on neither side. -/
theorem used_append (front behind : List Song) :
    (sizeSongs (front ++ behind)).value.1 =
      (sizeSongs front).value.1 + (sizeSongs behind).value.1 := by
  induction front with
  | nil => exact (Nat.zero_add _).symm
  | cons song rest ih =>
    cases own : song.requiredSpace with
    | ok size => rw [List.cons_append, used_cons own, used_cons own, ih, Nat.add_assoc]
    | error e =>
      rw [List.cons_append, sizeSongs, sizeSongs, own]
      exact ih

namespace Soundtrack

variable {s t : Soundtrack} {before after song : Song} {front behind : List Song} {bank : Bank}
  {a b : Nat}

/-- The use of a bank is the size of one of its songs and what the others use. -/
theorem used_of_songs (songs : s.songs = front ++ song :: behind) (home : song.bank = bank)
    (sized : song.requiredSpace = .ok a) :
    (s.usage bank).value.used = (sizeSongs (songsOf bank (front ++ behind))).value.1 + a := by
  have listed : s.songsIn bank = songsOf bank front ++ song :: songsOf bank behind := by
    rw [songsIn, songs, ← songsOf_cons_of_eq home]
    exact List.filter_append ..
  have others : songsOf bank (front ++ behind) = songsOf bank front ++ songsOf bank behind :=
    List.filter_append ..
  rw [used_usage, listed, others, used_append, used_append, used_cons sized]
  omega

/-- One song of the soundtrack is changed, and marked as changed. -/
def Edits (before after : Song) (s t : Soundtrack) : Prop :=
  ∃ index change, s.song? index = .ok before ∧
    change { before with modified := true } = { after with modified := true } ∧
    s.updateSong index change = .ok t

/-- A song that stays in its bank changes the use of the bank by as much as its size. -/
theorem used_of_edits (edits : Edits before after s t) (home : after.bank = before.bank)
    (sized : before.requiredSpace = .ok a) (resized : after.requiredSpace = .ok b) :
    (t.usage before.bank).value.used + a = (s.usage before.bank).value.used + b := by
  obtain ⟨index, change, found, changed, done⟩ := edits
  obtain ⟨song, same, rfl⟩ := updateSong_ok done
  obtain rfl := Except.ok.inj (found.symm.trans same)
  obtain ⟨split, inside⟩ := songs_split found
  have old : s.songs = s.songs.take index ++ before :: s.songs.drop (index + 1) := split
  have now : (s.songs.set index (change { before with modified := true })) =
      s.songs.take index ++ { after with modified := true } :: s.songs.drop (index + 1) := by
    rw [changed, List.set_eq_take_append_cons_drop, if_pos inside]
  have stays : ({ after with modified := true } : Song).bank = before.bank := home
  have marked : ({ after with modified := true } : Song).requiredSpace = .ok b := resized
  rw [used_of_songs old rfl sized, used_of_songs now stays marked]
  omega

theorem used_addSong (s : Soundtrack) (sized : song.requiredSpace = .ok a) :
    ((s.addSong song).usage song.bank).value.used = (s.usage song.bank).value.used + a := by
  have added : (s.addSong song).songs = s.songs ++ { song with modified := true } :: [] := rfl
  have marked : ({ song with modified := true } : Song).requiredSpace = .ok a := sized
  rw [used_of_songs added rfl marked, List.append_nil]
  rfl

end Soundtrack

/-- An event more or less in front of the end of a track changes the size of a song that can be
encoded, and the use of its bank, by one to five bytes. A song more always takes room. -/
theorem space_follows_music {before after : Song} {a b : Nat}
    (sized : before.requiredSpace = .ok a) (resized : after.requiredSpace = .ok b) :
    (before.Gains after → (a + 1 ≤ b ∧ b ≤ a + 5) ∧
      ∀ s t, Soundtrack.Edits before after s t →
        (s.usage before.bank).value.used + 1 ≤ (t.usage before.bank).value.used ∧
          (t.usage before.bank).value.used ≤ (s.usage before.bank).value.used + 5) ∧
    (before.Loses after → (b + 1 ≤ a ∧ a ≤ b + 5) ∧
      ∀ s t, Soundtrack.Edits before after s t →
        (t.usage before.bank).value.used + 1 ≤ (s.usage before.bank).value.used ∧
          (s.usage before.bank).value.used ≤ (t.usage before.bank).value.used + 5) ∧
    ∀ s : Soundtrack,
      (s.usage before.bank).value.used < ((s.addSong before).usage before.bank).value.used := by
  refine ⟨fun gains => ?_, fun loses => ?_, fun s => ?_⟩
  · have bounds := gains.size sized resized
    refine ⟨bounds, fun s t edits => ?_⟩
    have sum := Soundtrack.used_of_edits edits (Song.Edits.bank gains) sized resized
    omega
  · have bounds := loses.size sized resized
    refine ⟨bounds, fun s t edits => ?_⟩
    have sum := Soundtrack.used_of_edits edits (Song.Edits.bank loses) sized resized
    omega
  · have least := Song.two_le_requiredSpace sized
    have sum := s.used_addSong sized
    omega

/-! ### An example -/

/-- A song in the credits with one track. -/
def creditsTune (events : List Event) : Song :=
  { Song.new "Grow" .credits with
    segments := [{ tracks := Segment.silent.tracks.setIfInBounds 2 (.ofEvents events) }] }

def firstNote : Event := .note { pitch := 0xA4, duration := 0x24, velocity := 0x40 }

/-- A note with the timing of the first one. -/
def secondNote : Event := .note { pitch := 0xA5, duration := 0x24, velocity := 0x40 }

/-- A note that breaks the timing of those around it. -/
def shortNote : Event := .note { pitch := 0x90, duration := 0x12, velocity := 0x7F }

theorem shortNote_inserts : Track.Inserts 1 shortNote (.ofEvents [firstNote, secondNote])
    (.ofEvents [firstNote, shortNote, secondNote]) where
  filled := rfl
  music := by decide
  inside := by decide
  done := by decide

theorem shortNote_removes : Track.Removes 1 shortNote
    (.ofEvents [firstNote, shortNote, secondNote]) (.ofEvents [firstNote, secondNote]) where
  filled := rfl
  inside := by decide
  done := by decide

/-- The note takes three bytes and makes the one behind it state its timing anew: the most an event
can cost. Without it the five bytes are free again. -/
theorem short_note_between :
    let two := creditsTune [firstNote, secondNote]
    let three := creditsTune [firstNote, shortNote, secondNote]
    two.requiredSpace = .ok 25 ∧ three.requiredSpace = .ok 30 ∧
      (two.Gains three ∧ ∀ s t, Soundtrack.Edits two three s t →
        (s.usage .credits).value.used + 1 ≤ (t.usage .credits).value.used ∧
          (t.usage .credits).value.used ≤ (s.usage .credits).value.used + 5) ∧
      (three.Loses two ∧ ∀ s t, Soundtrack.Edits three two s t →
        (t.usage .credits).value.used + 1 ≤ (s.usage .credits).value.used ∧
          (s.usage .credits).value.used ≤ (t.usage .credits).value.used + 5) ∧
      ∃ s t, Soundtrack.Edits two three s t := by
  intro two three
  have sized : two.requiredSpace = .ok 25 := by decide
  have resized : three.requiredSpace = .ok 30 := by decide
  have gains : two.Gains three :=
    ⟨0, 2, _, _, rfl, ⟨1, shortNote, shortNote_inserts⟩, by decide⟩
  have loses : three.Loses two :=
    ⟨0, 2, _, _, rfl, ⟨1, shortNote, shortNote_removes⟩, by decide⟩
  obtain ⟨grown, -, -⟩ := space_follows_music sized resized
  obtain ⟨-, shrunk, -⟩ := space_follows_music resized sized
  refine ⟨sized, resized, ⟨gains, (grown gains).2⟩, ⟨loses, (shrunk loses).2⟩, ?_⟩
  exact ⟨{ songs := [two] }, _, 0, fun _ => { three with modified := true }, rfl, rfl, rfl⟩

end SnesMusic
