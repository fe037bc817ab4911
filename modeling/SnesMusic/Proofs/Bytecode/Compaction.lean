import SnesMusic.Proofs.Bytecode.Playing
import SnesMusic.Proofs.Bytecode.Reencoding
import SnesMusic.Proofs.Bytecode.Size

/-!
# Encoding again what was read

Timing is stated only where it changes, so a track that was read takes no more bytes than it was
read from. The bound holds token by token: what the next note has to state is something that the
timing tokens in front of it have stated already (`size_lead_setTiming`). Main statements: what the
tokens in front of an end marker stand for is encoded in as many bytes as they have
(`length_encode_score`), and so a track that is read up to its end marker is encoded in the bytes up
to that (`Uploads.encode_within_marker`).
-/
namespace SnesMusic

/-! ### Tokens -/

namespace Token

/-- Number of bytes of tokens in a row. -/
def span : List Token → Nat
  | [] => 0
  | token :: rest => token.width + span rest

theorem eq_zero_of_read {index : Nat} {byte : UInt8} {rest : List UInt8}
    (marked : read index byte rest = .finish) : byte = 0 := by
  unfold read at marked
  by_cases zero : byte = 0
  · exact zero
  · rw [if_neg zero] at marked
    split at marked
    · simp at marked
    · split at marked
      · simp at marked
      · split at marked
        · simp only at marked
          split at marked <;> simp at marked
        · simp at marked

/-- The end marker stands behind the bytes of the tokens in front of it, and nothing is read after
it. -/
theorem lexFrom_marked {index : Nat} {bytes : List UInt8} {front rest : List Token}
    (marked : lexFrom [] index bytes = front ++ .finish :: rest) :
    rest = [] ∧ bytes[span front]? = some 0 := by
  induction front generalizing index bytes with
  | nil =>
    cases bytes with
    | nil => simp [lexFrom] at marked
    | cons byte others =>
      rw [lexFrom_cons, List.nil_append, List.cons.injEq] at marked
      obtain ⟨first, behind⟩ := marked
      rw [first] at behind
      exact ⟨behind.symm, by rw [eq_zero_of_read first]; rfl⟩
  | cons token front ih =>
    cases bytes with
    | nil => simp [lexFrom] at marked
    | cons byte others =>
      rw [lexFrom_cons, List.cons_append, List.cons.injEq] at marked
      obtain ⟨rfl, behind⟩ := marked
      split at behind
      · simp at behind
      · obtain ⟨last, found⟩ := ih behind
        have positive := width_pos (read index byte others)
        refine ⟨last, ?_⟩
        rw [List.getElem?_drop] at found
        rw [span]
        have place : (read index byte others).width + span front =
            (read index byte others).width - 1 + span front + 1 := by omega
        rw [place, List.getElem?_cons_succ, found]

end Token

/-! ### Sizes -/

/-- What a note has to state after a timing token is stated by that token, or had to be stated
without it. -/
theorem size_lead_setTiming (last t : Timing) (duration : UInt8) (velocity : Option UInt8) :
    (last.lead { duration, velocity := velocity.getD t.velocity }).size ≤
      (Token.timing duration velocity).width + (last.lead t).size := by
  cases velocity with
  | some second =>
    have most := last.size_lead_le { duration, velocity := second }
    exact Nat.le_trans most (Nat.le_add_right _ _)
  | none =>
    simp only [Timing.lead, Option.getD_none, Token.width]
    by_cases changed : t.velocity ≠ last.velocity
    · rw [if_pos changed, if_pos changed]
      exact Nat.le_add_left _ _
    · rw [if_neg changed, if_neg changed]
      split <;> simp [Lead.size]

theorem Event.size_ofCommand (t : Timing) (c : Command) :
    (ofCommand c).size t = (Token.command c).width := by
  unfold ofCommand
  split
  · rename_i called
    rw [Token.width, eq_of_beq called]
    rfl
  · rfl

theorem Event.ofCommand_ne_finish (c : Command) : ofCommand c ≠ .finish := by
  unfold ofCommand
  split <;> simp

/-- Encoding takes no more for an event than its size, whatever follows. -/
theorem Track.length_encodeFrom_cons {e : Event} (further : e ≠ .finish) (t : Timing)
    (rest : List Event) :
    (encodeFrom [] t (e :: rest)).bytes.length ≤
      e.size t + (encodeFrom [] (e.after t) rest).bytes.length := by
  rw [encodeFrom_cons further]
  cases e.fault? t with
  | some fault => exact Nat.zero_le _
  | none =>
    simp only
    rw [encodeFrom_eq]
    simp only [List.append_nil, List.reverse_reverse, List.length_append, e.length_encode]
    exact Nat.le_refl _

/-- What the tokens in front of an end marker stand for is encoded in their bytes and that of the
marker, besides what was to be stated before. -/
theorem length_encode_score {front : List Token} (classed : ∀ token ∈ front, token.Classed)
    (t last : Timing) (rest : List Token) :
    (Track.encodeFrom [] last (Token.score t last (front ++ .finish :: rest))).bytes.length ≤
      Token.span front + (last.lead t).size + 1 := by
  -- What the next note has to state at `t` carries the induction: a timing token pays for it, a note
  -- spends it, and all other tokens keep it.
  induction front generalizing t last with
  | nil => exact Nat.le_add_left _ _
  | cons token front ih =>
    rw [List.forall_mem_cons] at classed
    obtain ⟨here, later⟩ := classed
    rw [Token.span, List.cons_append]
    cases token with
    | finish => exact Nat.le_add_left _ _
    | truncated opcode => exact Nat.le_add_left _ _
    | unknown index byte =>
      have behind := ih later t last
      rw [Token.score]
      omega
    | timing duration velocity =>
      have behind := ih later { duration, velocity := velocity.getD t.velocity } last
      have stated := size_lead_setTiming last t duration velocity
      rw [Token.score]
      omega
    | command c =>
      have behind := ih later t last
      have own := Track.length_encodeFrom_cons (Event.ofCommand_ne_finish c) last
        (Token.score t last (front ++ .finish :: rest))
      have kept : (Event.ofCommand c).after last = last := by
        unfold Event.ofCommand
        split <;> rfl
      rw [Event.size_ofCommand, kept] at own
      rw [Token.score]
      omega
    | note pitch =>
      have behind := ih later t t
      have own := Track.length_encodeFrom_cons (e := .note (t.note last pitch)) (by simp) last
        (Token.score t t (front ++ .finish :: rest))
      have sounded : (Event.note (t.note last pitch)).after last = t := by
        have pitched : isPitch (t.note last pitch).pitch = true := here
        rw [Event.after, if_pos pitched]
        rfl
      have nothing : (t.lead t).size = 0 := by rw [Timing.lead_eq_none_iff.mpr rfl]; rfl
      have size : (Event.note (t.note last pitch)).size last = (last.lead t).size + 1 := rfl
      have width : (Token.note pitch).width = 1 := rfl
      rw [sounded] at own
      rw [Token.score]
      omega

/-! ### Tracks -/

namespace Playback

variable {call : UInt16 → UInt8 → Nat → Timing → Report Nat} {origin : UInt16} {budget : Nat}
  {p q : Playback} {token : Token} {tokens rest : List Token} {f : Fragment}

theorem Plays.front (plays : Plays call origin budget p tokens q rest) :
    ∃ front, tokens = front ++ rest := by
  induction plays with
  | refl p tokens => exact ⟨[], rfl⟩
  | @step p q r token rest left early goes further ih =>
    obtain ⟨front, rfl⟩ := ih
    exact ⟨token :: front, rfl⟩

theorem Goes.no_finish (goes : Goes call origin budget p token q)
    (before : .finish ∉ p.events) : .finish ∉ q.events := by
  cases goes with
  | timing | unknown => exact before
  | note pitch => simpa [Playback.note] using before
  | command | call =>
    intro member
    rcases List.mem_cons.mp member with own | earlier
    · exact Event.ofCommand_ne_finish _ own.symm
    · exact before earlier

theorem Plays.no_finish (plays : Plays call origin budget p tokens q rest)
    (before : .finish ∉ p.events) : .finish ∉ q.events := by
  induction plays with
  | refl p tokens => exact before
  | step early goes further ih => exact ih (goes.no_finish before)

/-- A track that ends with an end marker was played up to one, and is all that its tokens stand
for. -/
theorem score_of_run {timing : Timing}
    (ran : (run call origin budget { timing } tokens).outcome = .ok f)
    (marked : f.track.endsWithFinish = true) :
    ∃ front rest, tokens = front ++ .finish :: rest ∧
      f.track.events = Token.score timing {} tokens := by
  obtain ⟨q, rest, plays, stops⟩ := run_ok ran
  have unmarked := plays.no_finish (show .finish ∉ ([] : List Event) from List.not_mem_nil)
  have heard := heardOf_of_plays plays
  have absurdly : f ≠ q.fragment := by
    rintro rfl
    have last : q.events.reverse.getLast? = some .finish := eq_of_beq marked
    exact unmarked (List.mem_reverse.mp (List.mem_of_getLast? last))
  cases stops with
  | spent | ended => exact absurd rfl absurdly
  | @marked others early =>
    obtain ⟨front, split⟩ := plays.front
    refine ⟨front, others, split, ?_⟩
    calc (q.push .finish).fragment.track.events = q.heardOf (.finish :: others) := by
          simp [fragment, push, Track.ofEvents, heardOf, Token.score]
      _ = heardOf { timing } tokens := heard
      _ = Token.score timing {} tokens := rfl

end Playback

/-- The tokens of a byte string end with an end marker at offset `e`. -/
def Token.EndsAt (bytes : List UInt8) (e : Nat) : Prop :=
  ∃ front, lex bytes = front ++ [.finish] ∧ span front = e

/-- Whatever bytes a track is read from, up to an end marker at offset `e`: it can be encoded, in at
most the bytes up to that marker. -/
theorem Uploads.encode_within_marker {u : Uploads} {limits : Limits} {address : UInt16}
    {bytes : List UInt8} {track : Track} (found : u.from? address = some bytes)
    (read : (u.track limits address).outcome = .ok track) (marked : track.endsWithFinish = true) :
    ∃ e encoded, Token.EndsAt bytes e ∧ bytes[e]? = some 0 ∧ track.bytes? = .ok encoded ∧
      encoded.length ≤ e + 1 := by
  have encodable := Track.fault_of_settled (settled_of_track read)
  rcases track_ok read with rfl | ⟨levels, there, f, -, found', ran, rfl⟩
  · simp [Track.silent, Track.endsWithFinish] at marked
  · obtain rfl : bytes = there := Option.some.inj (found.symm.trans found')
    obtain ⟨front, rest, split, heard⟩ := Playback.score_of_run ran marked
    obtain ⟨rfl, zero⟩ := Token.lexFrom_marked split
    refine ⟨Token.span front, (f.track.encode {}).bytes, ⟨front, split, rfl⟩, zero, ?_, ?_⟩
    · simp only [Track.bytes?, Track.encode, encodable]
    · have classed : ∀ token ∈ front, token.Classed := fun token member =>
        Token.forall_lexFrom Token.classed_read token
          (split ▸ List.mem_append_left _ member)
      have bound := length_encode_score classed {} {} []
      rw [← split, ← heard] at bound
      exact bound

/-- A track that states its timing more often than it has to, with a byte without meaning, a command
and a call. -/
def wordyTrack : List UInt8 := [
  0x48, 0x7F, 0x48, 0xA4, 0x48, 0xA5, 0xD5, 0x24, 0x30, 0xE7, 0x05, 0xEF, 0x16, 0xD0, 0x00, 0x48,
  0x7F, 0xC9, 0x24, 0x00]

/-- Its twenty bytes become twelve. -/
theorem wordy_encode_within_marker :
    let uploads : Uploads :=
      { bank := .dungeon, blocks := [{ address := 0xD000, bytes := wordyTrack, offset := 0 }] }
    let note (pitch : UInt8) (timed : Bool) : Event :=
      .note { pitch, duration := 0x48, velocity := 0x7F, timed }
    let track := Track.ofEvents [
      note 0xA4 true, note 0xA5 false,
      .command { opcode := 0xE7, first := 0x05, second := 0, third := 0 },
      .call 0xD016 0, note restPitch false, .finish]
    uploads.from? 0xD000 = some wordyTrack ∧
      (uploads.track {} 0xD000).outcome = .ok track ∧ track.endsWithFinish = true ∧
      ∃ e encoded, Token.EndsAt wordyTrack e ∧ wordyTrack[e]? = some 0 ∧
        track.bytes? = .ok encoded ∧ encoded.length ≤ e + 1 := by
  intro uploads note track
  have read : (uploads.track {} 0xD000).outcome = .ok track :=
    Report.ok_of_toOption (by decide +kernel)
  exact ⟨by decide, read, by decide, Uploads.encode_within_marker (by decide) read (by decide)⟩

end SnesMusic
