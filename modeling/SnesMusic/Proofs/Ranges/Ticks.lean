import SnesMusic.Proofs.Bytecode.Effects
import SnesMusic.Proofs.Bytecode.Reencoding
import SnesMusic.Proofs.Ranges.Songs

/-!
# Ticks on a machine

Ticks are counted in 32 bits. The last note of a fragment may pass the ticks that it was given, and
repetitions multiply what it passes them by, at every level of calls. Main statements: a fragment
takes at most 127 ticks for each that it is given (`Fragment.ticks_le`), so that ticks are reckoned
exactly where so many fit the word (`Trapping.exactFragment_eq`); the notes of a track pass the
ticks by less than one note (`Image.ticks_track_le`), and the ticks of a song add up within the word
(`Trapping.songTicks_eq`).
-/
namespace SnesMusic

/-! ### Ticks of a reading -/

theorem ticks_note_le (t last : Timing) (pitch : UInt8) :
    (Event.note (t.note last pitch)).ticks ≤ t.duration.toNat := by
  unfold Event.ticks Timing.note
  simp only
  split
  · exact Nat.zero_le _
  · exact Nat.le_refl _

theorem Timing.duration_le_of_classed {duration : UInt8} {velocity : Option UInt8}
    (classed : (Token.timing duration velocity).Classed) : duration.toNat ≤ 127 :=
  Nat.le_of_lt_succ ((isDuration_iff duration).mp classed.1).2

namespace Playback

variable {call : UInt16 → UInt8 → Nat → Timing → Report Nat} {origin : UInt16} {budget : Nat}
  {p q : Playback} {token : Token} {tokens rest : List Token} {f : Fragment}

/-- The duration in force is that of a timing byte, or none is, and the ticks that have passed are
at most 127 for each that was given. -/
structure Bounded (budget : Nat) (p : Playback) : Prop where
  duration : p.timing.duration.toNat ≤ 127
  ticks : p.ticks ≤ 127 * budget

/-- Calls take at most 127 ticks for each that is left to them. -/
def CallsBounded (call : UInt16 → UInt8 → Nat → Timing → Report Nat) : Prop :=
  ∀ target repeats left t n, t.duration.toNat ≤ 127 →
    (call target repeats left t).outcome = .ok n → n ≤ 127 * left

/-- Ticks stay bounded while some are left: a note takes no more than 127. -/
theorem Bounded.of_goes (bounded : p.Bounded budget) (calls : CallsBounded call)
    (early : p.ticks < budget) (classed : token.Classed)
    (goes : Goes call origin budget p token q) : q.Bounded budget := by
  obtain ⟨duration, ticks⟩ := bounded
  cases goes with
  | timing d velocity => exact ⟨Timing.duration_le_of_classed classed, ticks⟩
  | note pitch =>
    have added := ticks_note_le p.timing p.emitted pitch
    refine ⟨duration, Nat.le_trans (Nat.min_le_left _ _) ?_⟩
    omega
  | unknown index byte => exact ⟨duration, ticks⟩
  | command plain => exact ⟨duration, ticks⟩
  | @call c n isCall taken =>
    have added := calls _ _ _ _ n duration taken
    refine ⟨duration, Nat.le_trans (Nat.min_le_left _ _) ?_⟩
    omega

theorem Bounded.of_plays (bounded : p.Bounded budget) (calls : CallsBounded call)
    (classed : ∀ token ∈ tokens, token.Classed)
    (plays : Plays call origin budget p tokens q rest) : q.Bounded budget := by
  induction plays with
  | refl p tokens => exact bounded
  | step early goes further ih =>
    rw [List.forall_mem_cons] at classed
    exact ih (bounded.of_goes calls early classed.1 goes) classed.2

end Playback

namespace Fragment

variable {u : Uploads} {limits : Limits} {levels : Nat} {callers : List UInt16}
  {address : UInt16} {budget : Nat} {timing : Timing} {f : Fragment}

/-- With so many levels a fragment takes at most 127 ticks for each that it is given. -/
def TicksBounded (u : Uploads) (limits : Limits) (levels : Nat) : Prop :=
  ∀ (callers : List UInt16) (address : UInt16) (budget : Nat) (timing : Timing) (f : Fragment),
    timing.duration.toNat ≤ 127 →
    (read u limits levels callers address budget timing).outcome = .ok f → f.ticks ≤ 127 * budget

/-- What the repetitions of a fragment take together is bounded by what is left to its call. -/
theorem product_le_of_share {n left : Nat} {repeats : UInt8}
    (bounded : n ≤ 127 * (left / repeats.toNat)) : n * repeats.toNat ≤ 127 * left := by
  calc n * repeats.toNat ≤ 127 * (left / repeats.toNat) * repeats.toNat :=
        Nat.mul_le_mul_right _ bounded
    _ = 127 * (left / repeats.toNat * repeats.toNat) := Nat.mul_assoc ..
    _ ≤ 127 * left := Nat.mul_le_mul_left _ (Nat.div_mul_le_self ..)

theorem TicksBounded.calls (reads : TicksBounded u limits levels) (callers : List UInt16) :
    Playback.CallsBounded (call u limits levels callers) := by
  intro target repeats left t n duration taken
  unfold call at taken
  by_cases once : repeats = 0
  · rw [if_pos once, Report.outcome_ok, Except.ok.injEq] at taken
    rw [← taken]
    exact Nat.zero_le _
  · rw [if_neg once] at taken
    rcases callTicks_ok taken with ⟨f, found⟩ | ⟨missing, bank, gone⟩
    · rw [outcome_callTicks_of_ok found, Except.ok.injEq] at taken
      rw [← taken]
      exact Nat.le_trans (Nat.min_le_left _ _)
        (product_le_of_share (reads callers target _ t f duration found))
    · rw [outcome_callTicks_of_missing gone, Except.ok.injEq] at taken
      rw [← taken]
      exact Nat.zero_le _

/-- A fragment takes at most 127 ticks for each that it is given: the last note passes them, and
each repetition is given a share of what is left. -/
theorem ticks_le (levels : Nat) : TicksBounded u limits levels := by
  induction levels with
  | zero =>
    intro callers address budget timing f duration found
    rcases read_ok found with ⟨-, rfl⟩ | ⟨rest, bytes, impossible, -⟩
    · exact Nat.zero_le _
    · cases impossible
  | succ levels ih =>
    intro callers address budget timing f duration found
    rcases read_ok found with ⟨-, rfl⟩ | ⟨rest, bytes, here, -, -, -, ran⟩
    · exact Nat.zero_le _
    · obtain rfl := Nat.succ.inj here
      obtain ⟨q, left, plays, stops⟩ := Playback.run_ok ran
      have start : Playback.Bounded budget { timing } := ⟨duration, Nat.zero_le _⟩
      have finish := start.of_plays (ih.calls _) (Token.forall_lexFrom Token.classed_read) plays
      cases stops <;> exact finish.ticks

end Fragment

/-! ### Exact reckoning -/

namespace Trapping

/-- A number of ticks, which has to fit its word. -/
def ticks32 (n : Nat) : Trapping Nat := if n ≤ maxTicks then pure n else throw .overflow

theorem ticks32_eq {n : Nat} (fits : n ≤ maxTicks) : ticks32 n = pure n := if_pos fits

/-- Ticks reckoned exactly. -/
def exactReckoning : Reckoning Trapping where
  plus a b := ticks32 (a + b)
  minus := minus

theorem plus_eq {a b : Nat} (fits : a + b ≤ maxTicks) :
    exactReckoning.plus a b = pure (addTicks a b) := by
  rw [addTicks, Nat.min_eq_left fits]
  exact ticks32_eq fits

/-- The ticks of a call, given the reading of its target. -/
def exactCall (repeats : UInt8) (called : Report Fragment) : Trapping (Report Nat) :=
  match called.outcome with
  | .ok f => do
    let ticks ← ticks32 (f.ticks * repeats.toNat)
    pure { notices := called.notices, outcome := .ok ticks }
  | .error _ => pure (Fragment.callTicks repeats called)

theorem exactCall_eq {repeats : UInt8} {called : Report Fragment}
    (fits : ∀ f, called.outcome = .ok f → f.ticks * repeats.toNat ≤ maxTicks) :
    exactCall repeats called = pure (Fragment.callTicks repeats called) := by
  unfold exactCall
  cases found : called.outcome with
  | error e => rfl
  | ok f =>
    have product := fits f found
    simp only [ticks32_eq product, pure_bind, Fragment.callTicks, found, repeatTicks,
      Nat.min_eq_left product]

/-- Reads the fragment at an address with ticks that are reckoned exactly. -/
def exactFragment (u : Uploads) (limits : Limits) (levels : Nat) (callers : List UInt16)
    (address : UInt16) (budget : Nat) (timing : Timing) : Trapping (Report Fragment) :=
  if address = 0 then pure (.ok { track := .silent, ticks := 0 })
  else if address ∈ callers then pure (.fail (.circularReference address))
  else match levels with
    | 0 => pure (.fail (.depthExceeded limits.depth))
    | levels + 1 =>
      match u.require address with
      | .error e => pure (.fail e)
      | .ok bytes =>
        let call (target : UInt16) (repeats : UInt8) (left : Nat) (timing : Timing) :
            Trapping (Report Nat) := do
          if repeats = 0 then pure (.ok 0)
          else
            let share ← quotient left repeats.toNat
            let called ← exactFragment u limits levels (address :: callers) target share timing
            exactCall repeats called
        Playback.runIn exactReckoning call address budget { timing } (Token.lex bytes)

/-- What is accepted comes to a value. -/
def accepted : Outcomes Trapping where
  Yields x a := x = pure a
  pure _ := rfl
  bind first second := by rw [first, pure_bind, second]

/-- The most ticks whose 127-fold fits the word. -/
def exactTicks : Nat := 33818640

variable {u : Uploads} {limits : Limits}

theorem word_of_few {budget : Nat} (few : budget ≤ exactTicks) : 127 * budget ≤ maxTicks :=
  Nat.le_trans (Nat.mul_le_mul_left 127 few) (by decide)

/-- With so few ticks no sum and no product of ticks passes the word, and no more are taken away
than there are. -/
theorem exactFragment_eq (levels : Nat) (callers : List UInt16) (address : UInt16) {budget : Nat}
    (few : budget ≤ exactTicks) {timing : Timing} (duration : timing.duration.toNat ≤ 127) :
    exactFragment u limits levels callers address budget timing =
      pure (Fragment.read u limits levels callers address budget timing) := by
  induction levels generalizing callers address budget timing with
  | zero =>
    rw [exactFragment.eq_def, Fragment.read.eq_def]
    split
    · rfl
    · split <;> rfl
  | succ levels ih =>
    rw [exactFragment.eq_def, Fragment.read.eq_def]
    by_cases null : address = 0
    · rw [if_pos null, if_pos null]
    by_cases circular : address ∈ callers
    · rw [if_neg null, if_neg null, if_pos circular, if_pos circular]
    rw [if_neg null, if_neg null, if_neg circular, if_neg circular]
    cases required : u.require address with
    | error e => rfl
    | ok bytes =>
      have calls : Playback.CallsBounded (Fragment.call u limits levels (address :: callers)) :=
        (Fragment.ticks_le levels).calls (address :: callers)
      have word := word_of_few few
      refine Playback.runIn_yields accepted Token.Classed (Playback.Bounded budget) ?_
        ⟨duration, Nat.zero_le _⟩ (Token.forall_lexFrom Token.classed_read)
      exact {
        keeps := fun bounded early classed goes => bounded.of_goes calls early classed goes
        note := fun {p} bounded early pitch => by
          have added := ticks_note_le p.timing p.emitted pitch
          have slow := bounded.duration
          exact plus_eq (by omega)
        left := fun {p} bounded early => minus_eq (Nat.le_of_lt early)
        called := fun {p} bounded early target repeats => by
          constructor
          · by_cases once : repeats = 0
            · simp only [once, if_true]
              rfl
            · have some : repeats.toNat ≠ 0 := fun zero => once (UInt8.toNat.inj zero)
              have share : (budget - p.ticks) / repeats.toNat ≤ exactTicks :=
                Nat.le_trans (Nat.div_le_self ..) (Nat.le_trans (Nat.sub_le ..) few)
              simp only [once, if_false, quotient_eq some, pure_bind,
                ih (address :: callers) target share bounded.duration]
              -- The product is bounded by what is left to the call, and so by what was given.
              refine exactCall_eq fun f found => ?_
              have product := Fragment.product_le_of_share
                (Fragment.ticks_le levels _ target _ _ f bounded.duration found)
              omega
          · intro ticks taken
            have added := calls target repeats _ p.timing ticks bounded.duration taken
            exact plus_eq (by omega) }

end Trapping

/-! ### Ticks of tracks -/

theorem Track.ticks_eq_sum (t : Track) : t.ticks = (t.events.map Event.ticks).sum := by
  rw [Track.ticks, List.sum_eq_foldr, List.foldr_map]

theorem Event.ticks_ofCommand (c : Command) : (ofCommand c).ticks = 0 := by
  unfold ofCommand
  split <;> rfl

namespace Playback

variable {call : UInt16 → UInt8 → Nat → Timing → Report Nat} {origin : UInt16} {budget : Nat}
  {p q : Playback} {token : Token} {tokens rest : List Token} {f : Fragment}

/-- The ticks of the notes that have been heard, those of called fragments left out. -/
def heardTicks (p : Playback) : Nat := (p.events.map Event.ticks).sum

/-- While ticks are left, the notes take no more of them than have passed. They never pass those
that were given by a whole note. -/
structure Heard (budget : Nat) (p : Playback) : Prop where
  within : p.ticks < budget → p.heardTicks ≤ p.ticks
  total : p.heardTicks ≤ budget + 126

theorem Heard.of_goes (heard : p.Heard budget) (small : budget ≤ maxTicks)
    (slow : p.timing.duration.toNat ≤ 127) (early : p.ticks < budget)
    (goes : Goes call origin budget p token q) : q.Heard budget := by
  have before := heard.within early
  -- Ticks that are cut down to the largest number use up any limit: while some are left, they are
  -- the exact sum.
  cases goes with
  | timing d velocity => exact ⟨heard.within, heard.total⟩
  | unknown index byte => exact ⟨heard.within, heard.total⟩
  | note pitch =>
    have added := ticks_note_le p.timing p.emitted pitch
    constructor <;> simp only [note, heardTicks, addTicks, List.map_cons, List.sum_cons] at before ⊢
      <;> omega
  | @command c plain =>
    constructor <;>
      simp only [push, heardTicks, List.map_cons, List.sum_cons, Event.ticks_ofCommand] at before ⊢
      <;> omega
  | @call c n isCall taken =>
    constructor <;>
      simp only [called, heardTicks, addTicks, List.map_cons, List.sum_cons,
        Event.ticks_ofCommand] at before ⊢
      <;> omega

theorem Heard.of_plays (heard : p.Heard budget) (small : budget ≤ maxTicks)
    (bounded : p.Bounded budget) (calls : CallsBounded call)
    (classed : ∀ token ∈ tokens, token.Classed)
    (plays : Plays call origin budget p tokens q rest) : q.Heard budget := by
  induction plays with
  | refl p tokens => exact heard
  | step early goes further ih =>
    rw [List.forall_mem_cons] at classed
    exact ih (heard.of_goes small bounded.duration early goes)
      (bounded.of_goes calls early classed.1 goes) classed.2

theorem ticks_fragment_track (p : Playback) : p.fragment.track.ticks = p.heardTicks := by
  rw [Track.ticks_eq_sum]
  simp only [fragment, Track.ofEvents, heardTicks, List.map_reverse, List.sum_reverse]

theorem ticks_track_le_of_run (small : budget ≤ maxTicks) {timing : Timing}
    (duration : timing.duration.toNat ≤ 127) (calls : CallsBounded call)
    (classed : ∀ token ∈ tokens, token.Classed)
    (ran : (run call origin budget { timing } tokens).outcome = .ok f) :
    f.track.ticks ≤ budget + 126 := by
  obtain ⟨q, rest, plays, stops⟩ := run_ok ran
  have start : Heard budget { timing } := ⟨fun _ => Nat.zero_le _, Nat.zero_le _⟩
  have finish := start.of_plays small ⟨duration, Nat.zero_le _⟩ calls classed plays
  cases stops with
  | spent | ended =>
    rw [ticks_fragment_track]
    exact finish.total
  | marked =>
    rw [ticks_fragment_track]
    exact (Nat.zero_add _).trans_le finish.total

end Playback

namespace Uploads

variable {u : Uploads} {limits : Limits}

/-- The notes of a track pass the ticks that it is given by less than one of the longest. -/
theorem ticks_track_le (small : limits.ticks ≤ maxTicks) {address : UInt16} {track : Track}
    (read : (u.track limits address).outcome = .ok track) : track.ticks ≤ limits.ticks + 126 := by
  rcases track_ok read with rfl | ⟨levels, bytes, f, -, -, ran, rfl⟩
  · exact Nat.zero_le _
  · exact Playback.ticks_track_le_of_run small (by decide) ((Fragment.ticks_le levels).calls _)
      (Token.forall_lexFrom Token.classed_read) ran

end Uploads

/-! ### Ticks of songs -/

theorem SongHeader.length_read {address : UInt16} {before list : List UInt16} {header : SongHeader}
    (listed : read address before list = .ok header) :
    header.segments.length ≤ before.length + list.length := by
  induction list generalizing before with
  | nil => simp [read] at listed
  | cons word rest ih =>
    unfold read at listed
    split at listed
    · obtain rfl := Except.ok.inj listed
      simp
    · split at listed
      · cases rest with
        | nil => simp at listed
        | cons target others =>
          obtain rfl := Except.ok.inj listed
          simp
      · have further := ih listed
        rw [List.length_cons] at further ⊢
        omega

theorem foldl_max_le {ticks : List Nat} {longest most : Nat} (start : longest ≤ most)
    (each : ∀ n ∈ ticks, n ≤ most) : ticks.foldl max longest ≤ most := by
  induction ticks generalizing longest with
  | nil => exact start
  | cons n rest ih =>
    rw [List.forall_mem_cons] at each
    exact ih (Nat.max_le.mpr ⟨start, each.1⟩) each.2

theorem Segment.ticks_le {s : Segment} {most : Nat}
    (tracks : ∀ t ∈ s.tracks.toList, t.ticks ≤ most) : s.ticks ≤ most :=
  foldl_max_le (Nat.zero_le _) (List.forall_mem_map.mpr tracks)

theorem Song.ticks_eq_sum (s : Song) : s.ticks = (s.segments.map Segment.ticks).sum := by
  rw [Song.ticks, List.sum_eq_foldr, List.foldr_map]

namespace Trapping

/-- A sum of ticks, each of whose parts has to fit the word. -/
def total (ticks : List Nat) : Trapping Nat := ticks.foldlM (fun sum n => ticks32 (sum + n)) 0

def trackTicks (t : Track) : Trapping Nat := total (t.events.map Event.ticks)

def segmentTicks (s : Segment) : Trapping Nat := do
  let each ← s.tracks.toList.mapM trackTicks
  pure (each.foldl max 0)

def songTicks (s : Song) : Trapping Nat := do
  let each ← s.segments.mapM segmentTicks
  total each

theorem foldlM_ticks32 {ticks : List Nat} {start : Nat} (fits : start + ticks.sum ≤ maxTicks) :
    ticks.foldlM (fun sum n => ticks32 (sum + n)) start = pure (start + ticks.sum) := by
  induction ticks generalizing start with
  | nil => rfl
  | cons n rest ih =>
    rw [List.sum_cons] at fits ⊢
    rw [List.foldlM_cons, ticks32_eq (by omega), pure_bind, ih (by omega), Nat.add_assoc]

theorem total_eq {ticks : List Nat} (fits : ticks.sum ≤ maxTicks) :
    total ticks = pure ticks.sum := by
  rw [total, foldlM_ticks32 (by omega), Nat.zero_add]

/-- The ticks of a song add up within the word where those of so many tracks do. -/
theorem songTicks_eq {song : Song} {most : Nat} (tracks : ∀ t ∈ song.tracks, t.ticks ≤ most)
    (word : most ≤ maxTicks) (few : song.segments.length * most ≤ maxTicks) :
    songTicks song = pure song.ticks := by
  have ofSegment : ∀ s ∈ song.segments, ∀ t ∈ s.tracks.toList, t.ticks ≤ most :=
    fun s listed t member => tracks t (List.mem_flatMap.mpr ⟨s, listed, member⟩)
  have each : ∀ s ∈ song.segments, segmentTicks s = pure s.ticks := by
    intro s listed
    rw [segmentTicks, mapM_eq (g := Track.ticks)]
    · rfl
    · intro t member
      rw [trackTicks, Track.ticks_eq_sum]
      exact total_eq (by rw [← Track.ticks_eq_sum]; exact (ofSegment s listed t member).trans word)
  rw [songTicks, mapM_eq each, pure_bind, Song.ticks_eq_sum]
  apply total_eq
  calc (song.segments.map Segment.ticks).sum
      ≤ (song.segments.map Segment.ticks).length • most := by
        apply List.sum_le_card_nsmul
        intro n member
        obtain ⟨s, listed, rfl⟩ := List.mem_map.mp member
        exact Segment.ticks_le (ofSegment s listed)
    _ = song.segments.length * most := by rw [List.length_map, smul_eq_mul]
    _ ≤ maxTicks := few

end Trapping

namespace Image

/-- No song has more segments than the words of a block. -/
theorem length_segments_le {image : Image} {bank : Bank} {limits : Limits} {address : UInt16}
    {song : Song} (read : (image.song bank limits address).outcome = .ok song) :
    song.segments.length ≤ 32767 := by
  obtain ⟨-, -, -, bytes, header, segments, found, listed, each, same, -⟩ :=
    Uploads.song_ok (Image.song_ok read)
  have block : bytes.length < 65536 := Trapping.length_lt_of_from? found
  have words := SongHeader.length_read listed
  rw [Trapping.length_words, List.length_nil, Nat.zero_add] at words
  rw [same]
  split
  · exact (by decide : 1 ≤ 32767)
  · rw [(Uploads.segments_ok each).1]
    omega

/-- With the default limits the ticks of a song add up within the word. -/
theorem songTicks_eq {image : Image} {bank : Bank} {address : UInt16} {song : Song}
    (read : (image.song bank {} address).outcome = .ok song) :
    Trapping.songTicks song = pure song.ticks := by
  have most : ∀ t ∈ song.tracks, t.ticks ≤ 50126 := by
    intro t member
    rcases Uploads.tracks_of_song (Image.song_ok read) t member with rfl | ⟨word, -, track⟩
    · exact Nat.zero_le _
    · exact Uploads.ticks_track_le (by decide) track
  apply Trapping.songTicks_eq most (by decide)
  calc song.segments.length * 50126 ≤ 32767 * 50126 :=
        Nat.mul_le_mul_right _ (length_segments_le read)
    _ ≤ maxTicks := by decide

/-- Ticks stay within their word: a fragment takes at most 127 for each that it is given, so few
enough of them are reckoned exactly; the notes of a track pass its limit by less than one note; and
with the default limits the ticks of a song add up. -/
theorem ticks_within_word (image : Image) :
    (∀ bank limits levels callers address budget (timing : Timing),
      timing.duration.toNat ≤ 127 →
        (∀ f, (Fragment.read (Uploads.ofImage image bank) limits levels callers address budget
          timing).outcome = .ok f → f.ticks ≤ 127 * budget) ∧
        (budget ≤ 33818640 →
          Trapping.exactFragment (Uploads.ofImage image bank) limits levels callers address budget
              timing =
            pure (Fragment.read (Uploads.ofImage image bank) limits levels callers address budget
              timing))) ∧
    (∀ bank limits address track, limits.ticks ≤ maxTicks →
      (image.track bank limits address).outcome = .ok track →
        track.ticks ≤ limits.ticks + 126) ∧
    ∀ bank address song, (image.song bank {} address).outcome = .ok song →
      Trapping.songTicks song = pure song.ticks := by
  refine ⟨fun bank limits levels callers address budget timing duration => ⟨fun f read => ?_,
    fun few => ?_⟩, fun bank limits address track small read => ?_,
    fun bank address song read => songTicks_eq read⟩
  · exact Fragment.ticks_le levels callers address budget timing f duration read
  · exact Trapping.exactFragment_eq levels callers address few duration
  · obtain ⟨loaded, -⟩ := track_ok read
    rw [track_of_isLoaded loaded] at read
    exact Uploads.ticks_track_le small read

end Image

/-- A song of one segment. Its track calls a fragment of one note twice. -/
def overrunBlock : SingleBlock := {
  bank := .dungeon
  address := 0xD000
  payload := [
    0x04, 0xD0, 0x00, 0x00,
    0x14, 0xD0, 0x00, 0x00, 0x00, 0x00, 0x00, 0x00, 0x00, 0x00, 0x00, 0x00, 0x00, 0x00, 0x00, 0x00,
    0xEF, 0x1B, 0xD0, 0x02, 0x24, 0xA4, 0x00,
    0x48, 0xA4, 0x00] }

def overrunTrack : Track := .ofEvents [
  .call 0xD01B 2,
  .note { pitch := 0xA4, duration := 0x24, timed := true },
  .finish]

def overrunSong : Song := {
  name := "Song $D000"
  segments := [{ tracks := (Vector.replicate 8 Track.silent).setIfInBounds 0 overrunTrack }]
  loopPoint := none
  bank := .dungeon
  address := 0xD000 }

/-- Given ten ticks, each of the two has five; their notes pass them, and the call takes 144. -/
theorem overrun_within_word :
    let image := Image.ofBlocks [overrunBlock]
    let uploads := Uploads.ofImage image .dungeon
    let note := Track.ofEvents [.note { pitch := 0xA4, duration := 0x48, timed := true }]
    ({} : Timing).duration.toNat ≤ 127 ∧
      (Fragment.read uploads {} 100 [] 0xD014 10 {}).outcome =
        .ok { track := .ofEvents [.call 0xD01B 2], ticks := 144 } ∧
      144 ≤ 127 * 10 ∧ 10 ≤ 33818640 ∧
      Trapping.exactFragment uploads {} 100 [] 0xD014 10 {} =
        pure (Fragment.read uploads {} 100 [] 0xD014 10 {}) ∧
      10 ≤ maxTicks ∧ (image.track .dungeon { ticks := 10 } 0xD01B).outcome = .ok note ∧
      note.ticks ≤ 10 + 126 ∧
      (image.song .dungeon {} 0xD000).outcome = .ok overrunSong ∧
      Trapping.songTicks overrunSong = pure overrunSong.ticks := by
  have uploads : Uploads.ofImage (Image.ofBlocks [overrunBlock]) .dungeon =
      { bank := .dungeon, blocks := [overrunBlock.placed] } :=
    Image.uploads_ofBlocks (by decide) (by decide) .dungeon
  have loaded := Image.isLoaded_ofBlocks [overrunBlock]
  have read : (Fragment.read (Uploads.ofImage (Image.ofBlocks [overrunBlock]) .dungeon) {} 100 []
      0xD014 10 {}).outcome = .ok { track := .ofEvents [.call 0xD01B 2], ticks := 144 } := by
    rw [uploads]
    exact Report.ok_of_toOption (by decide +kernel)
  have track : ((Image.ofBlocks [overrunBlock]).track .dungeon { ticks := 10 } 0xD01B).outcome =
      .ok (.ofEvents [.note { pitch := 0xA4, duration := 0x48, timed := true }]) := by
    rw [Image.track_of_isLoaded loaded, uploads]
    exact Report.ok_of_toOption (by decide +kernel)
  have song : ((Image.ofBlocks [overrunBlock]).song .dungeon {} 0xD000).outcome =
      .ok overrunSong := by
    rw [Image.song, Image.uploads, if_pos loaded, Bank.uploadBank, uploads,
      Report.outcome_bind_of_ok rfl]
    exact Report.ok_of_toOption (by decide +kernel)
  obtain ⟨fragments, tracks, songs⟩ := Image.ticks_within_word (Image.ofBlocks [overrunBlock])
  obtain ⟨bounded, exact⟩ := fragments .dungeon {} 100 [] 0xD014 10 {} (by decide)
  exact ⟨by decide, read, bounded _ read, by decide, exact (by decide), by decide, track,
    tracks .dungeon { ticks := 10 } 0xD01B _ (by decide) track, song,
    songs .dungeon 0xD000 overrunSong song⟩

end SnesMusic
