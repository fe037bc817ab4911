import SnesMusic.Proofs.Bytecode.Encodable
import SnesMusic.Proofs.Bytecode.Expansion
import SnesMusic.Proofs.Bytecode.SongOrigin
import SnesMusic.Proofs.Upload

/-!
# Encoding what was read

Whatever bytes a song is read from, it can be encoded again. A timing byte is never zero, so
duration and velocity do not become zero once they have been stated, and what a note needs to have
stated is something that bytecode can state (`Timing.Follows`). Main statements: playing tokens
gives events that can be encoded (`settled_of_run`), and a song that is read can be encoded for
every address, with its notes marked as timed where the encoding states their timing
(`song_read_encodes`).
-/
namespace SnesMusic

/-! ### Tokens as they are read -/

namespace Token

/-- The bytes of a token are of the classes that it is told by. -/
def Classed : Token → Prop
  | .timing duration velocity =>
    isDuration duration = true ∧ ∀ byte, velocity = some byte → isDuration byte = true
  | .note pitch => isPitch pitch = true
  | .command c => isOpcode c.opcode = true
  | _ => True

theorem classed_read (index : Nat) (byte : UInt8) (rest : List UInt8) :
    (read index byte rest).Classed := by
  unfold read
  split
  · trivial
  · split
    · refine ⟨by assumption, fun second stated => ?_⟩
      exact (Option.filter_eq_some_iff.mp stated).2
    · split
      · assumption
      · split
        · simp only
          split
          · trivial
          · assumption
        · trivial

end Token

/-! ### Timing in force -/

/-- The timing in force after timing bytes, `last` being the timing of the note before them: it is
that of the note, or duration and a velocity of its own have been stated. -/
def Timing.Follows (t last : Timing) : Prop :=
  t = last ∨
    isDuration t.duration = true ∧ (t.velocity = last.velocity ∨ isDuration t.velocity = true)

/-- A note at such a timing can be encoded after the note before it. -/
theorem Timing.Follows.fault?_note {t last : Timing} (follows : t.Follows last) {pitch : UInt8}
    (pitched : isPitch pitch = true) :
    (Event.note (t.note last pitch)).fault? last = none := by
  have timing : (t.note last pitch).timing = t := rfl
  have same : (t.note last pitch).pitch = pitch := rfl
  simp only [Event.fault?, same, pitched, Bool.not_true, Bool.false_eq_true, if_false, timing]
  rcases follows with rfl | ⟨duration, velocity⟩
  · rw [Timing.lead_eq_none_iff.mpr rfl]
  · have stated : isDuration (t.note last pitch).duration = true := duration
    cases lead : last.lead t with
    | none => rfl
    | duration => simp [stated]
    | withVelocity =>
      have changed : t.velocity ≠ last.velocity := by
        intro kept
        unfold Timing.lead at lead
        rw [if_neg (not_not_intro kept)] at lead
        split at lead <;> simp at lead
      have own : isDuration (t.note last pitch).velocity = true := velocity.resolve_left changed
      simp [stated, own]

theorem Timing.Follows.setTiming {t last : Timing} (follows : t.Follows last) {duration : UInt8}
    {velocity : Option UInt8} (classed : (Token.timing duration velocity).Classed) :
    Timing.Follows { duration, velocity := velocity.getD t.velocity } last := by
  obtain ⟨stated, second⟩ := classed
  refine Or.inr ⟨stated, ?_⟩
  cases velocity with
  | some byte => exact Or.inr (second byte rfl)
  | none =>
    rcases follows with rfl | ⟨-, velocity⟩
    · exact Or.inl rfl
    · exact velocity

/-! ### Events as they are read -/

namespace Track

/-- Events that stand as they are read when `t` is the timing before them: each can be encoded
after those before it, nothing follows an end marker, and the notes that have to state their timing
are marked. -/
def Settled (t : Timing) : List Event → Prop
  | [] => True
  | e :: rest =>
    e.fault? t = none ∧ (e = .finish → rest = []) ∧
      (∀ n, e = .note n → (n.timed = true ↔ t.lead n.timing ≠ .none)) ∧ Settled (e.after t) rest

theorem fault_of_settled {t : Timing} {events : List Event} (settled : Settled t events) :
    (encodeFrom [] t events).fault = none := by
  induction events generalizing t with
  | nil => rfl
  | cons e rest ih =>
    obtain ⟨encodable, -, -, later⟩ := settled
    by_cases last : e = .finish
    · subst last
      rfl
    · rw [encodeFrom_cons last, encodable]
      simp only
      rw [encodeFrom_eq]
      exact ih later

/-- The encoder, when it comes to the note behind the events `before`, emits `lead` and then its
pitch, whatever events follow. -/
def EncodesNote (before : List Event) (n : Note) (behind : List Event) (lead : List UInt8) : Prop :=
  ∃ front rest,
    ((ofEvents before).encode {}).bytes = front ++ [0] ∧
      ((ofEvents (before ++ [.note n])).encode {}).bytes = front ++ (lead ++ [n.pitch, 0]) ∧
      ((ofEvents (before ++ .note n :: behind)).encode {}).bytes =
        front ++ (lead ++ n.pitch :: rest)

/-- Each note behind settled events is encoded with what has to precede it. -/
theorem encodes_of_settled {t : Timing} {before behind : List Event} {n : Note}
    (settled : Settled t (before ++ .note n :: behind)) :
    ∃ lead front rest, (n.timed = true ↔ lead ≠ []) ∧
      (encodeFrom [] t before).bytes = front ++ [0] ∧
      (encodeFrom [] t (before ++ [.note n])).bytes = front ++ (lead ++ [n.pitch, 0]) ∧
      (encodeFrom [] t (before ++ .note n :: behind)).bytes =
        front ++ (lead ++ n.pitch :: rest) := by
  induction before generalizing t with
  | nil =>
    obtain ⟨encodable, -, marked, later⟩ := settled
    have whole : ∀ events, (encodeFrom [] t (.note n :: events)).bytes =
        (t.lead n.timing).bytes n ++
          n.pitch :: (encodeFrom [] ((Event.note n).after t) events).bytes := by
      intro events
      rw [encodeFrom_cons (by simp), encodable]
      simp only
      rw [encodeFrom_eq]
      simp [Event.encode]
    refine ⟨(t.lead n.timing).bytes n, [], _, ?_, rfl, whole [], whole behind⟩
    rw [marked n rfl]
    cases t.lead n.timing <;> simp [Lead.bytes]
  | cons e others ih =>
    obtain ⟨encodable, ended, -, later⟩ := settled
    have last : e ≠ .finish := by
      intro finish
      simpa using ended finish
    obtain ⟨lead, front, rest, marked, alone, own, whole⟩ := ih later
    have further : ∀ events, (encodeFrom [] t (e :: events)).bytes =
        e.encode t ++ (encodeFrom [] (e.after t) events).bytes := by
      intro events
      rw [encodeFrom_cons last, encodable]
      simp only
      rw [encodeFrom_eq]
      simp
    refine ⟨lead, e.encode t ++ front, rest, marked, ?_, ?_, ?_⟩
    · rw [further, alone, List.append_assoc]
    · rw [List.cons_append, further, own, List.append_assoc]
    · rw [List.cons_append, further, whole, List.append_assoc]

end Track

/-! ### Playback -/

namespace Playback

variable {call : UInt16 → UInt8 → Nat → Timing → Report Nat} {origin : UInt16} {budget : Nat}

theorem settled_note {t last : Timing} (follows : t.Follows last) {pitch : UInt8}
    (pitched : isPitch pitch = true) {heard : List Event} (later : Track.Settled t heard) :
    Track.Settled last (.note (t.note last pitch) :: heard) := by
  have after : (Event.note (t.note last pitch)).after last = t := by
    simp only [Event.after, Timing.note, pitched, if_true]
    rfl
  refine ⟨follows.fault?_note pitched, by simp, ?_, by rwa [after]⟩
  intro n same
  rw [Event.note.injEq] at same
  subst same
  simp only [Timing.note, Note.timing, decide_eq_true_eq]

theorem settled_command {last : Timing} {c : Command} (classed : isOpcode c.opcode = true)
    {heard : List Event} (later : Track.Settled last heard) :
    Track.Settled last (.ofCommand c :: heard) := by
  unfold Event.ofCommand
  split
  · exact ⟨rfl, by simp, by simp, later⟩
  · exact ⟨by simp [Event.fault?, classed], by simp, by simp, later⟩

/-- Whatever tokens are played, the events that are heard of them are settled: the induction is on
the tokens, and the timing in force follows that of the last note throughout. -/
theorem settled_of_run {p : Playback} {tokens : List Token} {f : Fragment}
    (classed : ∀ token ∈ tokens, token.Classed) (follows : p.timing.Follows p.emitted)
    (ran : (run call origin budget p tokens).outcome = .ok f) :
    ∃ heard, f.track = Track.ofEvents (p.events.reverse ++ heard) ∧
      Track.Settled p.emitted heard := by
  have stopped : ∀ {q : Playback} {f : Fragment}, q.done.outcome = .ok f →
      f.track = Track.ofEvents q.events.reverse := by
    intro q f same
    simp only [done, Except.ok.injEq] at same
    rw [← same]
  induction tokens generalizing p with
  | nil =>
    unfold run at ran
    exact ⟨[], by rw [stopped ran, List.append_nil], trivial⟩
  | cons token rest ih =>
    by_cases late : budget ≤ p.ticks
    · have halted : (run call origin budget p (token :: rest)) = p.done := by
        cases token <;> rw [run, if_pos late]
      rw [halted] at ran
      exact ⟨[], by rw [stopped ran, List.append_nil], trivial⟩
    · rw [List.forall_mem_cons] at classed
      obtain ⟨here, later⟩ := classed
      cases token with
      | finish =>
        rw [run, if_neg late] at ran
        refine ⟨[.finish], ?_, rfl, fun _ => rfl, by simp, trivial⟩
        rw [stopped ran, push, List.reverse_cons]
      | truncated opcode =>
        rw [run, if_neg late] at ran
        simp [fail] at ran
      | timing duration velocity =>
        rw [run, if_neg late] at ran
        exact ih (p := p.setTiming duration velocity) later (follows.setTiming here) ran
      | unknown index byte =>
        rw [run, if_neg late] at ran
        exact ih (p := p.skip origin index byte) later follows ran
      | note pitch =>
        rw [run, if_neg late] at ran
        obtain ⟨heard, track, settled⟩ := ih (p := p.note pitch) later (Or.inl rfl) ran
        refine ⟨.note (p.timing.note p.emitted pitch) :: heard, ?_,
          settled_note follows here settled⟩
        rw [track, note, List.reverse_cons, List.append_assoc, List.singleton_append]
      | command c =>
        rw [run, if_neg late] at ran
        cases isCall : c.isCall with
        | false =>
          simp only [isCall, Bool.false_eq_true, if_false] at ran
          obtain ⟨heard, track, settled⟩ := ih (p := p.push (.ofCommand c)) later follows ran
          refine ⟨.ofCommand c :: heard, ?_, settled_command here settled⟩
          rw [track, push, List.reverse_cons, List.append_assoc, List.singleton_append]
        | true =>
          simp only [isCall, if_true] at ran
          cases outcome : (call c.target c.repeats (budget - p.ticks) p.timing).outcome with
          | error e => simp [outcome, fail] at ran
          | ok spent =>
            simp only [outcome] at ran
            obtain ⟨heard, track, settled⟩ :=
              ih (p := p.called spent _ (.ofCommand c)) later follows ran
            refine ⟨.ofCommand c :: heard, ?_, settled_command here settled⟩
            rw [track, called, List.reverse_cons, List.append_assoc, List.singleton_append]

end Playback

/-! ### Songs -/

namespace Uploads

variable {u : Uploads} {limits : Limits}

/-- The events of a track that is read are settled from its beginning on. -/
theorem settled_of_track {word : UInt16} {track : Track}
    (read : (u.track limits word).outcome = .ok track) : Track.Settled {} track.events := by
  rcases track_ok read with rfl | ⟨levels, bytes, f, -, -, ran, rfl⟩
  · trivial
  · obtain ⟨heard, track, settled⟩ :=
      Playback.settled_of_run (Token.forall_lexFrom Token.classed_read) (Or.inl rfl) ran
    rw [track]
    exact settled

/-- The events of every track of a song that is read are settled. -/
theorem settled_of_song {bank : Bank} {address : UInt16} {song : Song}
    (read : (u.song limits bank address).outcome = .ok song) :
    ∀ track ∈ song.tracks, Track.Settled {} track.events := by
  intro track member
  rcases tracks_of_song read track member with rfl | ⟨word, -, trackRead⟩
  · trivial
  · exact settled_of_track trackRead

end Uploads

namespace Image

/-- Whatever song is read can be encoded for every address: it has segments, its loop leads to one
of them, and its notes are marked as timed where the encoding of their track states their timing. -/
theorem song_read_encodes {image : Image} {bank : Bank} {limits : Limits} {address : UInt16}
    {s : Song} (read : (image.song bank limits address).outcome = .ok s) :
    1 ≤ s.segments.length ∧
      (∀ segment, s.loopPoint = some segment → segment < s.segments.length) ∧
      (∀ base, ∃ encoding, s.encode base = .ok encoding) ∧
      ∀ track ∈ s.tracks, ∀ before n behind, track.events = before ++ .note n :: behind →
        ∃ lead, Track.EncodesNote before n behind lead ∧ (n.timed = true ↔ lead ≠ []) := by
  have uploaded := song_ok read
  have looped := Uploads.loopPoint_of_song uploaded
  have settled := Uploads.settled_of_song uploaded
  refine ⟨List.length_pos_iff.mpr (Uploads.segments_of_song uploaded), looped, ?_, ?_⟩
  · exact Song.encode_of_encodable looped fun track member _ =>
      Track.fault_of_settled (settled track member)
  · intro track member before n behind events
    have stands := settled track member
    rw [events] at stands
    obtain ⟨lead, front, rest, marked, alone, own, whole⟩ := Track.encodes_of_settled stands
    exact ⟨lead, ⟨front, rest, alone, own, whole⟩, marked⟩

end Image

/-! ### An example -/

/-- A song of one segment that loops to itself. Its track passes over a byte without meaning, keeps
a velocity across a command and a call, and ends with timing that no note follows. -/
def looseBlock : SingleBlock := {
  bank := .dungeon
  address := 0xD000
  payload := [
    0x06, 0xD0, 0xFF, 0x00, 0x06, 0xD0,
    0x00, 0x00, 0x00, 0x00, 0x00, 0x00, 0x16, 0xD0, 0x00, 0x00, 0x00, 0x00, 0x00, 0x00, 0x00, 0x00,
    0x48, 0xA4, 0xA5, 0x24, 0x7F, 0xD5, 0xC9, 0xE7, 0x05, 0xEF, 0x16, 0xD0, 0x00, 0x48, 0xA4,
    0x24, 0x00] }

/-- What is read of it. -/
def looseSong : Song := {
  name := "Song $D000"
  segments := [{ tracks := (Vector.replicate 8 Track.silent).set 3 (.ofEvents [
    .note { pitch := 0xA4, duration := 0x48, timed := true },
    .note { pitch := 0xA5, duration := 0x48 },
    .note { pitch := restPitch, duration := 0x24, velocity := 0x7F, timed := true },
    .command { opcode := 0xE7, first := 0x05, second := 0, third := 0 },
    .call 0xD016 0,
    .note { pitch := 0xA4, duration := 0x48, velocity := 0x7F, timed := true },
    .finish]) }]
  loopPoint := some 0
  bank := .dungeon
  address := 0xD000 }

theorem loose_song_encodes :
    ((Image.ofBlocks [looseBlock]).song .dungeon {} 0xD000).outcome = .ok looseSong ∧
      1 ≤ looseSong.segments.length ∧
      (∀ segment, looseSong.loopPoint = some segment → segment < looseSong.segments.length) ∧
      (∀ base, ∃ encoding, looseSong.encode base = .ok encoding) ∧
      ∀ track ∈ looseSong.tracks, ∀ before n behind, track.events = before ++ .note n :: behind →
        ∃ lead, Track.EncodesNote before n behind lead ∧ (n.timed = true ↔ lead ≠ []) := by
  have fits : ∀ b ∈ [looseBlock], b.Fits := by decide
  have own := Image.chain_ofBlocks (by decide) fits (List.mem_singleton_self looseBlock)
  rw [show looseBlock.bank = .dungeon from rfl] at own
  have shared : chain (Image.ofBlocks [looseBlock]) .common = [] :=
    Image.chain_ofBlocks_of_absent fits (by decide)
  have uploads : (Image.ofBlocks [looseBlock]).uploads Bank.dungeon.uploadBank =
      .ok { bank := .dungeon, blocks := [looseBlock.placed] } := by
    rw [Bank.uploadBank, Image.uploads, if_pos (Image.isLoaded_ofBlocks _), Uploads.ofImage, own,
      shared]
    rfl
  have read : ((Image.ofBlocks [looseBlock]).song .dungeon {} 0xD000).outcome = .ok looseSong := by
    unfold Image.song
    rw [uploads, Report.outcome_bind_of_ok rfl]
    exact Report.ok_of_toOption (by decide +kernel)
  exact ⟨read, Image.song_read_encodes read⟩

end SnesMusic
