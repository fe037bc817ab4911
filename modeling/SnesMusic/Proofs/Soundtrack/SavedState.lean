import SnesMusic.Proofs.Json.Records
import SnesMusic.Proofs.Soundtrack.HeadedSaving

/-!
# Saved states read back

The text of a soundtrack holds its music as a whole: each type of the state is read back from the
value it is written as, whatever names, events and numbers it is made of, as long as its counts and
positions fit into 64 bits (`State.Counted`). Main statement: `Soundtrack.loadJson_toJson`.
-/
namespace SnesMusic

open Json Value

/-! ### Bytes and words -/

theorem byte?_nat (b : UInt8) : byte? (nat b.toNat) = some b := by
  rw [byte?, nat?_nat b.toNat_lt, Option.map_some, UInt8.ofNat_toNat]

theorem word?_nat (w : UInt16) : word? (nat w.toNat) = some w := by
  rw [word?, nat?_nat w.toNat_lt, Option.map_some, UInt16.ofNat_toNat]

theorem count?_nat {n : Nat} (below : n < countLimit) : count? (nat n) = some n :=
  nat?_nat below

theorem sample?_int (p : Int16) : ((int p.toInt).int? 16).map Int16.ofInt = some p := by
  rw [int?_int p.le_toInt p.toInt_lt, Option.map_some, Int16.ofInt_toInt]

/-! ### Events -/

theorem Note.ofValue?_record (n : Note) : Note.ofValue? (record n.toMembers) = some n := by
  have found : (record n.toMembers).fields? Note.fields =
      some [nat n.pitch.toNat, nat n.duration.toNat, nat n.velocity.toNat, .bool n.timed] :=
    fields?_record rfl (by decide)
  simp [Note.ofValue?, found, byte?_nat]

theorem Command.ofValue?_record (c : Command) : Command.ofValue? (record c.toMembers) = some c := by
  have found : (record c.toMembers).fields? Command.fields =
      some [nat c.opcode.toNat, array (c.params.map fun p => nat p.toNat)] :=
    fields?_record rfl (by decide)
  have params : (array (c.params.map fun p => nat p.toNat)).list? byte? = some c.params :=
    list?_map fun p _ => byte?_nat p
  simp only [Command.ofValue?, found, byte?_nat, params]
  rfl

namespace Event

theorem callOfValue?_record (address : UInt16) (repeats : UInt8) :
    callOfValue? (record [("address", nat address.toNat), ("repeat", nat repeats.toNat)]) =
      some (.call address repeats) := by
  have found : (record [("address", nat address.toNat), ("repeat", nat repeats.toNat)]).fields?
      callFields = some [nat address.toNat, nat repeats.toNat] :=
    fields?_record rfl (by decide)
  simp [callOfValue?, found, word?_nat, byte?_nat]

/-- All members of an event make sense. -/
theorem isSound_toValue (e : Event) : e.toValue.isSound levels = true := by
  have byte : ∀ (b : UInt8) levels, (nat b.toNat).isSound levels = true :=
    fun b _ => isSound_nat (Nat.lt_trans b.toNat_lt (by decide))
  have word : ∀ (w : UInt16) levels, (nat w.toNat).isSound levels = true :=
    fun w _ => isSound_nat (Nat.lt_trans w.toNat_lt (by decide))
  cases e <;>
    simp [toValue, Note.toMembers, Command.toMembers, Command.params, record, isSound, membersSound,
      areSound, levels, byte, word, text]

theorem ofValue?_toValue (e : Event) : ofValue? e.toValue = some e := by
  rw [ofValue?, isSound_toValue]
  cases e with
  | note n =>
    have tag : (toValue (.note n)).tagged? "type" = some ("note", record n.toMembers) :=
      tagged?_record "note" (by simp [Note.toMembers])
    simp [tag, Note.ofValue?_record]
  | command c =>
    have tag : (toValue (.command c)).tagged? "type" = some ("command", record c.toMembers) :=
      tagged?_record "command" (by simp [Command.toMembers])
    simp [tag, Command.ofValue?_record]
  | call address repeats =>
    have tag : (toValue (.call address repeats)).tagged? "type" = some ("subroutine_call",
        record [("address", nat address.toNat), ("repeat", nat repeats.toNat)]) :=
      tagged?_record "subroutine_call" (by simp)
    simp [tag, callOfValue?_record]
  | finish =>
    have tag : (toValue .finish).tagged? "type" = some ("end", record []) :=
      tagged?_record "end" (by simp)
    simp [tag, record]

end Event

/-! ### Songs -/

theorem Track.ofValue?_toValue (t : Track) : Track.ofValue? t.toValue = some t := by
  have found : t.toValue.fields? Track.fields =
      some [array (t.events.map Event.toValue), .bool t.empty] :=
    fields?_record rfl (by decide)
  have events : (array (t.events.map Event.toValue)).list? Event.ofValue? = some t.events :=
    list?_map fun e _ => e.ofValue?_toValue
  simp [Track.ofValue?, found, events]

theorem Segment.ofValue?_toValue (s : Segment) : Segment.ofValue? s.toValue = some s := by
  have found : s.toValue.fields? Segment.fields =
      some [array (s.tracks.toList.map Track.toValue)] :=
    fields?_record rfl (by decide)
  have tracks : (array (s.tracks.toList.map Track.toValue)).list? Track.ofValue? =
      some s.tracks.toList :=
    list?_map fun t _ => t.ofValue?_toValue
  simp only [Segment.ofValue?, found, tracks, Option.bind_eq_bind, Option.bind_some]
  exact dif_pos (show s.tracks.toList.toArray.size = 8 from s.tracks.size_toArray)

theorem Song.ofValue?_toValue {s : Song} (counted : ∀ point ∈ s.loopPoint, point < countLimit) :
    Song.ofValue? s.toValue = some s := by
  have found : s.toValue.fields? Song.fields = some [text s.name,
      array (s.segments.map Segment.toValue), (s.loopPoint.map nat).getD .null,
      text s.bank.tag, nat s.address.toNat, .bool s.modified] :=
    fields?_record rfl (by decide)
  have segments : (array (s.segments.map Segment.toValue)).list? Segment.ofValue? =
      some s.segments :=
    list?_map fun segment _ => segment.ofValue?_toValue
  have loop : ((s.loopPoint.map nat).getD .null).option? count? = some s.loopPoint := by
    rw [option?_map fun point member => count?_nat (counted point member), Option.map_id']
  have bank : Bank.ofValue? (text s.bank.tag) = some s.bank := s.bank.ofTag?_tag
  simp [Song.ofValue?, found, segments, loop, bank, word?_nat]

/-! ### Instruments and samples -/

theorem Instrument.ofValue?_toValue (i : Instrument) : Instrument.ofValue? i.toValue = some i := by
  have found : i.toValue.fields? Instrument.fields = some [text i.name, nat i.sample.toNat,
      nat i.attack.toNat, nat i.decay.toNat, nat i.sustainLevel.toNat, nat i.sustainRate.toNat,
      nat i.gain.toNat, nat i.pitchMultiplier.toNat] :=
    fields?_record rfl (by decide)
  simp [Instrument.ofValue?, found, byte?_nat, word?_nat]

theorem Sample.ofValue?_toValue {s : Sample} (counted : s.loopPoint < countLimit) :
    Sample.ofValue? s.toValue = some s := by
  have found : s.toValue.fields? Sample.fields = some [text s.name,
      array (s.encoded.map fun b => nat b.toNat), array (s.pcm.map fun p => int p.toInt),
      nat s.loopPoint, .bool s.loops] :=
    fields?_record rfl (by decide)
  have encoded : (array (s.encoded.map fun b => nat b.toNat)).list? byte? = some s.encoded :=
    list?_map fun b _ => byte?_nat b
  have pcm : (array (s.pcm.map fun p => int p.toInt)).list?
      (fun p => (p.int? 16).map Int16.ofInt) = some s.pcm :=
    list?_map fun p _ => sample?_int p
  simp [Sample.ofValue?, found, encoded, pcm, count?_nat counted]

/-! ### States -/

namespace State

/-- All positions and counts of a state have 64 bits. -/
structure Counted (s : State) : Prop where
  loops : ∀ song ∈ s.songs, ∀ point ∈ song.loopPoint, point < countLimit
  samples : ∀ sample ∈ s.samples, sample.loopPoint < countLimit
  slots : ∀ bank, s.tableSlots bank < countLimit

theorem ofValue?_toValue {s : State} (counted : s.Counted) : ofValue? s.toValue = some s := by
  have found : s.toValue.fields? fields = some [array (s.songs.map Song.toValue),
      array (s.instruments.map Instrument.toValue), array (s.samples.map Sample.toValue),
      nat (s.tableSlots .overworld), nat (s.tableSlots .dungeon), nat (s.tableSlots .credits),
      nat (s.tableSlots .overworldExpanded), nat (s.tableSlots .auxiliary)] :=
    fields?_record rfl (by decide)
  have songs : (array (s.songs.map Song.toValue)).list? Song.ofValue? = some s.songs :=
    list?_map fun song member => Song.ofValue?_toValue (counted.loops song member)
  have instruments : (array (s.instruments.map Instrument.toValue)).list?
      Instrument.ofValue? = some s.instruments :=
    list?_map fun i _ => i.ofValue?_toValue
  have samples : (array (s.samples.map Sample.toValue)).list? Sample.ofValue? =
      some s.samples :=
    list?_map fun sample member => Sample.ofValue?_toValue (counted.samples sample member)
  simp only [ofValue?, found, songs, instruments, samples, count?_nat (counted.slots _),
    Option.bind_eq_bind, Option.bind_some]
  refine congrArg (fun slots => some { s with tableSlots := slots }) (funext fun bank => ?_)
  cases bank <;> rfl

/-- All numbers of a state have a text. -/
theorem isRegular_toValue (s : State) : s.toValue.isRegular = true := by
  have event : ∀ e : Event, e.toValue.isRegular = true := by
    intro e
    cases e <;> rfl
  have track : ∀ t : Track, t.toValue.isRegular = true := fun t =>
    isRegular_record (by simp [isRegular_map, event])
  have segment : ∀ g : Segment, g.toValue.isRegular = true := fun g =>
    isRegular_record (by simp [isRegular_map, track])
  have loop : ∀ point : Option Nat, ((point.map nat).getD .null).isRegular = true := by
    rintro (_ | _) <;> rfl
  have song : ∀ g : Song, g.toValue.isRegular = true := fun g =>
    isRegular_record (by simp [isRegular_map, segment, loop])
  have instrument : ∀ i : Instrument, i.toValue.isRegular = true := fun i =>
    isRegular_record (by simp)
  have bytes : ∀ bs : List UInt8, (array (bs.map fun b => nat b.toNat)).isRegular = true :=
    fun _ => isRegular_map fun _ _ => rfl
  have waves : ∀ ps : List Int16, (array (ps.map fun p => int p.toInt)).isRegular = true :=
    fun _ => isRegular_map fun _ _ => rfl
  have sample : ∀ a : Sample, a.toValue.isRegular = true := fun a =>
    isRegular_record (by simp [bytes, waves])
  refine isRegular_record ?_
  simp [isRegular_map, song, instrument, sample]

end State

/-! ### Soundtracks -/

namespace Soundtrack

/-- The text of a soundtrack brings its music into any other. -/
theorem loadJson_eq_restore {s : Soundtrack} (counted : s.state.Counted) (t : Soundtrack) :
    t.loadJson s.toJson = .ok (t.restore s.state) := by
  rw [loadJson, toJson, ofText?_toText s.state.isRegular_toValue, Option.bind_eq_bind,
    Option.bind_some, State.ofValue?_toValue counted]

theorem samples_restore (s : Soundtrack) (state : State) :
    (s.restore state).samples = state.samples := by
  rw [samples, restore, List.map_map]
  exact List.map_id _

/-- Nothing is lost in the text of a soundtrack: restored in any other, it gives the same songs,
their marks included, instruments, samples and table lengths. A text that is refused leaves the
soundtrack as it was. -/
theorem loadJson_toJson {s : Soundtrack} (counted : s.state.Counted) (t : Soundtrack) :
    (∃ restored, t.loadJson s.toJson = .ok restored ∧ restored.songs = s.songs ∧
      restored.instruments = s.instruments ∧ restored.samples = s.samples ∧
      restored.tableSlots = s.tableSlots) ∧
    ∀ text e, t.loadJson text = .error e → t.edited [.restore text] = t := by
  refine ⟨⟨t.restore s.state, loadJson_eq_restore counted t, rfl, rfl, samples_restore t s.state,
    rfl⟩, fun text e refused => ?_⟩
  have apply : (Edit.restore text).apply t = .error e := refused
  rw [edited, List.foldl_cons, apply]
  rfl

/-- A soundtrack of odd things: a name of quotes, controls and a character beyond 16 bits, a command
without a meaning, and positions and counts that are as large as they get. -/
def oddities : Soundtrack :=
  let events : List Event := [.command { opcode := 0x12, first := 0xFF, third := 7 },
    .note { pitch := 0xFF, duration := 0, timed := true }, .call 0xFFFF 0, .finish]
  { songs := [{
      name := "\x22\\\x00\x7f/𝄞"
      segments := [{ tracks := Vector.replicate 8 (Track.ofEvents events) }, Segment.silent]
      loopPoint := some 0xFFFFFFFFFFFFFFFF
      bank := .overworldExpanded
      address := 0xFFFF
      modified := true }]
    instruments := [{ name := "\n\t", gain := 0xFF, pitchMultiplier := 0xFFFF }]
    entries := [{ sample := {
      name := "", encoded := [0, 0xFF], pcm := [-32768, 0, 32767]
      loopPoint := 0xFFFFFFFFFFFFFFFF, loops := true } }]
    tableSlots := fun _ => 0xFFFFFFFFFFFFFFFF }

theorem counted_oddities : oddities.state.Counted where
  loops := by simp [state, oddities, countLimit, UInt64.size]
  samples := by simp [state, samples, oddities, countLimit, UInt64.size]
  slots := by simp [state, oddities, countLimit, UInt64.size]

theorem loadJson_toJson_oddities :
    oddities.state.Counted ∧
      (∃ restored, (new {}).loadJson oddities.toJson = .ok restored ∧
        restored.songs = oddities.songs ∧ restored.instruments = oddities.instruments ∧
        restored.samples = oddities.samples ∧ restored.tableSlots = oddities.tableSlots) ∧
      (new {}).loadJson "[" = .error .state ∧ (new {}).edited [.restore "["] = new {} := by
  have tokens : lex "[".toList = some [.openArray] :=
    (lexFrom_mark [] rfl rfl).trans (lexFrom.eq_1 _)
  have refused : (new {}).loadJson "[" = .error .state := by
    rw [loadJson, ofText?, tokens]
    rfl
  obtain ⟨restored, kept⟩ := loadJson_toJson counted_oddities (new {})
  exact ⟨counted_oddities, restored, refused, kept "[" .state refused⟩

end Soundtrack
end SnesMusic
