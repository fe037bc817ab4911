import SnesMusic.Proofs.Bytecode.Calls
import SnesMusic.Proofs.Bytecode.TrackReading

/-!
# Playing what was read

The events that are read from bytecode, and what playing them again gives. The timing in force at a
call is not among the events, so it is lost unless it is that of the note before. Main statement:
where repeated calls are made at the timing of the note before them, playing the events that were
read gives these events and takes as many ticks, for every way to play calls that takes the ticks
that were taken (`playFrom_of_run`).
-/
namespace SnesMusic

open LittleEndian

/-! ### Tokens as they are read -/

namespace Token

/-- Notes have pitches, and commands no parameters but those that count. -/
def Proper : Token → Prop
  | .note pitch => isPitch pitch = true
  | .command c => Command.ofParams c.opcode c.params = c
  | _ => True

theorem proper_read (index : Nat) (byte : UInt8) (rest : List UInt8) :
    (read index byte rest).Proper := by
  unfold read
  split
  · trivial
  · split
    · trivial
    · split
      · assumption
      · split
        · simp only
          split
          · trivial
          · exact Command.ofParams_params _ _
        · trivial

theorem proper_lexFrom {index : Nat} {bytes : List UInt8} :
    ∀ token ∈ lexFrom [] index bytes, token.Proper := forall_lexFrom proper_read

end Token

/-! ### Timing of calls -/

/-- Every repeated call is made at the timing of the note before it: the timing in force and that of
the last note, before the tokens. -/
def Timely (t last : Timing) : List Token → Prop
  | [] => True
  | .timing duration velocity :: rest =>
    Timely { duration, velocity := velocity.getD t.velocity } last rest
  | .note _ :: rest => Timely t t rest
  | .command c :: rest => (c.isCall = true → c.repeats ≠ 0 → t = last) ∧ Timely t last rest
  | _ :: rest => Timely t last rest

namespace Playback

variable {call : UInt16 → UInt8 → Nat → Timing → Report Nat} {origin : UInt16} {budget : Nat}

/-- Calls that are not repeated take no ticks. -/
def Idle (call : UInt16 → UInt8 → Nat → Timing → Report Nat) : Prop :=
  ∀ target left t, (call target 0 left t).outcome = .ok 0

/-- The calls of the tokens take as many ticks when they are played the other way. -/
def Agree (call call' : UInt16 → UInt8 → Nat → Timing → Report Nat) (tokens : List Token) : Prop :=
  ∀ c, .command c ∈ tokens → c.isCall = true → c.repeats ≠ 0 → ∀ left t n,
    (call c.target c.repeats left t).outcome = .ok n →
      (call' c.target c.repeats left t).outcome = .ok n

theorem Agree.tail {call' : UInt16 → UInt8 → Nat → Timing → Report Nat} {token : Token}
    {rest : List Token} (agree : Agree call call' (token :: rest)) : Agree call call' rest :=
  fun c member => agree c (List.mem_cons_of_mem _ member)

/-- What playing again the events that were heard from a place on comes to: the same events and
ticks, and the end marker if the data had none. -/
def Replays (call : UInt16 → UInt8 → Nat → Timing → Report Nat) (budget ticks : Nat) (last : Timing)
    (tokens : List Token) (heard tail : List Event) (total : Nat) : Prop :=
  (tail = [] ∨ tail = [.finish]) ∧
    ∀ call', Idle call' → Agree call call' tokens →
      Track.playFrom call' budget ticks last heard = .ok (heard ++ tail, total)

/-- A note that was heard is played again as it was. -/
theorem playFrom_note {call' : UInt16 → UInt8 → Nat → Timing → Report Nat} {p : Playback}
    {pitch : UInt8} (proper : isPitch pitch = true) (below : ¬budget ≤ p.ticks)
    (heard : List Event) :
    Track.playFrom call' budget p.ticks p.emitted
        (.note (p.timing.note p.emitted pitch) :: heard) =
      (Track.playFrom call' budget (p.note pitch).ticks p.timing heard).map fun later =>
        (.note (p.timing.note p.emitted pitch) :: later.1, later.2) := by
  have after : (Event.note (p.timing.note p.emitted pitch)).after p.emitted = p.timing := by
    simp only [Event.after, Timing.note, proper, if_true]
    rfl
  have canonical : (Event.note (p.timing.note p.emitted pitch)).canonical p.emitted =
      .note (p.timing.note p.emitted pitch) := rfl
  rw [Track.playFrom_cons (by simp), if_neg below]
  simp only [Event.call?, after, canonical]
  rfl

theorem playFrom_command {call' : UInt16 → UInt8 → Nat → Timing → Report Nat} {c : Command}
    {ticks : Nat} {last : Timing} (proper : Command.ofParams c.opcode c.params = c)
    (other : c.isCall = false) (below : ¬budget ≤ ticks) (heard : List Event) :
    Track.playFrom call' budget ticks last (.ofCommand c :: heard) =
      (Track.playFrom call' budget ticks last heard).map fun later =>
        (.ofCommand c :: later.1, later.2) := by
  have plain : Event.ofCommand c = .command c := by
    rw [Event.ofCommand, other]
    rfl
  have ne : c.opcode ≠ callOpcode := by simpa [Command.isCall] using other
  rw [plain, Track.playFrom_cons (by simp), if_neg below]
  simp only [Event.call?, ne, if_false, Event.canonical_command_of_ne last ne, proper]
  rfl

theorem playFrom_call {call' : UInt16 → UInt8 → Nat → Timing → Report Nat} {c : Command}
    {ticks spent : Nat} {last : Timing} (called : c.isCall = true) (below : ¬budget ≤ ticks)
    (taken : (call' c.target c.repeats (budget - ticks) last).outcome = .ok spent)
    (heard : List Event) :
    Track.playFrom call' budget ticks last (.ofCommand c :: heard) =
      (Track.playFrom call' budget (addTicks ticks spent) last heard).map fun later =>
        (.ofCommand c :: later.1, later.2) := by
  have plain : Event.ofCommand c = .call c.target c.repeats := by
    rw [Event.ofCommand, called]
    rfl
  rw [plain, Track.playFrom_cons (by simp), if_neg below]
  simp only [Event.call?, taken]
  rfl

/-- Playing the events that were heard gives these events and takes as many ticks. -/
theorem playFrom_of_run {p : Playback} {tokens : List Token} {f : Fragment} (idle : Idle call)
    (proper : ∀ token ∈ tokens, token.Proper) (timely : Timely p.timing p.emitted tokens)
    (ran : (run call origin budget p tokens).outcome = .ok f) :
    ∃ heard tail, f.track = Track.ofEvents (p.events.reverse ++ heard) ∧
      Replays call budget p.ticks p.emitted tokens heard tail f.ticks := by
  induction tokens generalizing p with
  | nil =>
    unfold run at ran
    simp only [done, Except.ok.injEq] at ran
    subst ran
    by_cases late : budget ≤ p.ticks
    · exact ⟨[], [], by simp, Or.inl rfl, fun _ _ _ => by simp [Track.playFrom, late]⟩
    · exact ⟨[], [.finish], by simp, Or.inr rfl, fun _ _ _ => by simp [Track.playFrom, late]⟩
  | cons token rest ih =>
    by_cases late : budget ≤ p.ticks
    · have stopped : (run call origin budget p (token :: rest)) = p.done := by
        cases token <;> rw [run, if_pos late]
      rw [stopped] at ran
      simp only [done, Except.ok.injEq] at ran
      subst ran
      exact ⟨[], [], by simp, Or.inl rfl, fun _ _ _ => by simp [Track.playFrom, late]⟩
    · have proper' : ∀ token ∈ rest, token.Proper :=
        fun token member => proper token (List.mem_cons_of_mem _ member)
      cases token with
      | finish =>
        rw [run, if_neg late] at ran
        simp only [done, push, Except.ok.injEq] at ran
        subst ran
        exact ⟨[.finish], [], by simp, Or.inl rfl, fun _ _ _ => by simp [Track.playFrom, late]⟩
      | truncated opcode =>
        rw [run, if_neg late] at ran
        simp [fail] at ran
      | timing duration velocity =>
        rw [run, if_neg late] at ran
        obtain ⟨heard, tail, track, shape, again⟩ := ih proper' timely ran
        exact ⟨heard, tail, track, shape, fun call' idle agree => again call' idle agree.tail⟩
      | unknown index byte =>
        rw [run, if_neg late] at ran
        obtain ⟨heard, tail, track, shape, again⟩ :=
          ih (p := p.skip origin index byte) proper' timely ran
        exact ⟨heard, tail, track, shape, fun call' idle agree => again call' idle agree.tail⟩
      | note pitch =>
        rw [run, if_neg late] at ran
        obtain ⟨heard, tail, track, shape, again⟩ := ih proper' timely ran
        refine ⟨.note (p.timing.note p.emitted pitch) :: heard, tail, ?_, shape, ?_⟩
        · rw [track]
          simp [note]
        · intro call' idle agree
          have pitched : isPitch pitch = true := proper (.note pitch) (List.mem_cons_self ..)
          rw [playFrom_note pitched late]
          have rest := again call' idle agree.tail
          simp only [note] at rest ⊢
          rw [rest]
          rfl
      | command c =>
        rw [run, if_neg late] at ran
        obtain ⟨prompt, timely⟩ := timely
        cases called : c.isCall with
        | false =>
          simp only [called, Bool.false_eq_true, if_false] at ran
          obtain ⟨heard, tail, track, shape, again⟩ :=
            ih (p := p.push (.ofCommand c)) proper' timely ran
          refine ⟨.ofCommand c :: heard, tail, ?_, shape, ?_⟩
          · rw [track]
            simp [push]
          · intro call' idle agree
            have trimmed : Command.ofParams c.opcode c.params = c :=
              proper (.command c) (List.mem_cons_self ..)
            rw [playFrom_command trimmed called late]
            have rest := again call' idle agree.tail
            simp only [push] at rest
            rw [rest]
            rfl
        | true =>
          simp only [called, if_true] at ran
          cases outcome : (call c.target c.repeats (budget - p.ticks) p.timing).outcome with
          | error e => simp [outcome, fail] at ran
          | ok spent =>
            simp only [outcome] at ran
            obtain ⟨heard, tail, track, shape, again⟩ :=
              ih (p := p.called spent _ (.ofCommand c)) proper' timely ran
            refine ⟨.ofCommand c :: heard, tail, ?_, shape, ?_⟩
            · rw [track]
              simp [Playback.called]
            · intro call' idle' agree
              have taken : (call' c.target c.repeats (budget - p.ticks) p.emitted).outcome =
                  .ok spent := by
                by_cases repeated : c.repeats = 0
                · rw [repeated, idle] at outcome
                  rw [repeated, idle', outcome]
                · rw [← prompt called repeated]
                  exact agree c (List.mem_cons_self ..) called repeated _ _ _ outcome
              rw [playFrom_call called late taken]
              have rest := again call' idle' agree.tail
              simp only [Playback.called] at rest
              rw [rest]
              rfl

end Playback
end SnesMusic
