import SnesMusic.Proofs.Bytecode.Calls
import SnesMusic.Proofs.Bytecode.TrackReading

/-!
# Playing token by token

What a playback does at one token, and the states it passes. Main statements: a playback that
succeeds has gone on from token to token to where it stopped (`run_ok`), its events are a beginning
of the events that the tokens stand for, whatever ticks it was given (`prefix_score`), and a reading
that succeeds is such a playback (`read_ok`).
-/
namespace SnesMusic

namespace Token

/-- The events that tokens stand for: `t` is the timing in force and `last` that of the last note.
Nothing is heard of a command that is cut off. -/
def score (t last : Timing) : List Token → List Event
  | [] => []
  | .finish :: _ => [.finish]
  | .truncated _ :: _ => []
  | .timing duration velocity :: rest =>
    score { duration, velocity := velocity.getD t.velocity } last rest
  | .note pitch :: rest => .note (t.note last pitch) :: score t t rest
  | .command c :: rest => .ofCommand c :: score t last rest
  | .unknown _ _ :: rest => score t last rest

end Token

namespace Playback

/-- The fragment that has been played so far. -/
def fragment (p : Playback) : Fragment :=
  { track := Track.ofEvents p.events.reverse, ticks := p.ticks }

section
variable (call : UInt16 → UInt8 → Nat → Timing → Report Nat) (origin : UInt16) (budget : Nat)

/-! ### Steps -/

/-- At a token a playback that has ticks left goes on to another. It does not go on at an end
marker, at a command that is cut off or at a call that fails. -/
inductive Goes (p : Playback) : Token → Playback → Prop where
  | timing (duration : UInt8) (velocity : Option UInt8) :
    Goes p (.timing duration velocity) (p.setTiming duration velocity)
  | note (pitch : UInt8) : Goes p (.note pitch) (p.note pitch)
  | unknown (index : Nat) (byte : UInt8) : Goes p (.unknown index byte) (p.skip origin index byte)
  | command {c : Command} (plain : c.isCall = false) :
    Goes p (.command c) (p.push (.ofCommand c))
  | call {c : Command} {ticks : Nat} (isCall : c.isCall = true)
    (taken : (call c.target c.repeats (budget - p.ticks) p.timing).outcome = .ok ticks) :
    Goes p (.command c) (p.called ticks
      ((call c.target c.repeats (budget - p.ticks) p.timing).notices.reverse ++ p.notices)
      (.ofCommand c))

/-- A playback comes to another, with the tokens that are left to it. Wherever it has gone on it had
ticks left. -/
inductive Plays : Playback → List Token → Playback → List Token → Prop where
  | refl (p : Playback) (tokens : List Token) : Plays p tokens p tokens
  | step {p q r : Playback} {token : Token} {rest left : List Token} (early : p.ticks < budget)
    (goes : Goes call origin budget p token q) (further : Plays q rest r left) :
    Plays p (token :: rest) r left

/-- A playback stops with the fragment it has played: its ticks are used up, there are no more
tokens, or an end marker is next. -/
inductive Stops (p : Playback) : List Token → Fragment → Prop where
  | spent {tokens : List Token} (late : budget ≤ p.ticks) : Stops p tokens p.fragment
  | ended (early : p.ticks < budget) : Stops p [] p.fragment
  | marked {rest : List Token} (early : p.ticks < budget) :
    Stops p (.finish :: rest) (p.push .finish).fragment

end

variable {call : UInt16 → UInt8 → Nat → Timing → Report Nat} {origin : UInt16} {budget : Nat}
  {p q : Playback} {token : Token} {tokens rest : List Token} {f : Fragment}

theorem run_of_goes (early : p.ticks < budget) (goes : Goes call origin budget p token q) :
    run call origin budget p (token :: rest) = run call origin budget q rest := by
  have going := Nat.not_le.mpr early
  cases goes with
  | timing duration velocity => rw [run, if_neg going]
  | note pitch => rw [run, if_neg going]
  | unknown index byte => rw [run, if_neg going]
  | command plain =>
    rw [run, if_neg going]
    simp only [plain, Bool.false_eq_true, if_false]
  | call isCall taken =>
    rw [run, if_neg going]
    simp only [isCall, if_true, taken]
    rfl

theorem run_of_plays (plays : Plays call origin budget p tokens q rest) :
    run call origin budget p tokens = run call origin budget q rest := by
  induction plays with
  | refl p tokens => rfl
  | step early goes further ih => rw [run_of_goes early goes, ih]

/-- A playback that succeeds and has ticks left goes on at its next token, unless that is the end
marker. -/
theorem goes_of_run (early : p.ticks < budget)
    (ran : (run call origin budget p (token :: rest)).outcome = .ok f) :
    token = .finish ∨ ∃ q, Goes call origin budget p token q := by
  have going := Nat.not_le.mpr early
  cases token with
  | finish => exact .inl rfl
  | timing duration velocity => exact .inr ⟨_, .timing duration velocity⟩
  | note pitch => exact .inr ⟨_, .note pitch⟩
  | unknown index byte => exact .inr ⟨_, .unknown index byte⟩
  | truncated opcode =>
    rw [run, if_neg going] at ran
    simp [fail] at ran
  | command c =>
    cases isCall : c.isCall with
    | false => exact .inr ⟨_, .command isCall⟩
    | true =>
      rw [run, if_neg going] at ran
      simp only [isCall, if_true] at ran
      cases taken : (call c.target c.repeats (budget - p.ticks) p.timing).outcome with
      | error e => simp [taken, fail] at ran
      | ok ticks => exact .inr ⟨_, .call isCall taken⟩

/-- A playback that succeeds goes on from token to token to where it stops. -/
theorem run_ok (ran : (run call origin budget p tokens).outcome = .ok f) :
    ∃ q rest, Plays call origin budget p tokens q rest ∧ Stops budget q rest f := by
  induction tokens generalizing p with
  | nil =>
    unfold run at ran
    obtain rfl : p.fragment = f := Except.ok.inj ran
    rcases Nat.lt_or_ge p.ticks budget with early | late
    · exact ⟨p, [], .refl p [], .ended early⟩
    · exact ⟨p, [], .refl p [], .spent late⟩
  | cons token others ih =>
    rcases Nat.lt_or_ge p.ticks budget with early | late
    · rcases goes_of_run early ran with rfl | ⟨next, goes⟩
      · rw [run, if_neg (Nat.not_le.mpr early)] at ran
        obtain rfl : (p.push .finish).fragment = f := Except.ok.inj ran
        exact ⟨p, _, .refl p _, .marked early⟩
      · rw [run_of_goes early goes] at ran
        obtain ⟨q, rest, plays, stops⟩ := ih ran
        exact ⟨q, rest, .step early goes plays, stops⟩
    · rw [run_of_budget_le late] at ran
      obtain rfl : p.fragment = f := Except.ok.inj ran
      exact ⟨p, _, .refl p _, .spent late⟩

theorem ticks_le_maxTicks_of_goes (start : p.ticks ≤ maxTicks)
    (goes : Goes call origin budget p token q) : q.ticks ≤ maxTicks := by
  cases goes with
  | timing | unknown | command => exact start
  | note | call => exact Nat.min_le_right _ _

/-- Ticks only add up. -/
theorem ticks_le_of_goes (start : p.ticks ≤ maxTicks) (goes : Goes call origin budget p token q) :
    p.ticks ≤ q.ticks := by
  cases goes with
  | timing | unknown | command => exact Nat.le_refl _
  | note | call => exact Nat.le_min.mpr ⟨Nat.le_add_right _ _, start⟩

theorem ticks_le_of_plays (start : p.ticks ≤ maxTicks)
    (plays : Plays call origin budget p tokens q rest) : p.ticks ≤ q.ticks := by
  induction plays with
  | refl p tokens => exact Nat.le_refl _
  | step early goes further ih =>
    exact Nat.le_trans (ticks_le_of_goes start goes) (ih (ticks_le_maxTicks_of_goes start goes))

/-! ### Events -/

/-- What has been heard, and what the tokens that are left stand for. -/
def heardOf (p : Playback) (tokens : List Token) : List Event :=
  p.events.reverse ++ Token.score p.timing p.emitted tokens

theorem heardOf_of_goes (goes : Goes call origin budget p token q) (rest : List Token) :
    q.heardOf rest = p.heardOf (token :: rest) := by
  cases goes with
  | timing | unknown => rfl
  | note | command | call =>
    simp only [heardOf, note, push, called, Token.score, List.reverse_cons, List.append_assoc,
      List.singleton_append]

theorem heardOf_of_plays (plays : Plays call origin budget p tokens q rest) :
    q.heardOf rest = p.heardOf tokens := by
  induction plays with
  | refl p tokens => rfl
  | step early goes further ih => rw [ih, heardOf_of_goes goes]

theorem prefix_heardOf (p : Playback) (tokens : List Token) :
    p.events.reverse <+: p.heardOf tokens := ⟨_, rfl⟩

/-- Whenever a playback stops, its events are a beginning of all that there is to hear. -/
theorem prefix_score (ran : (run call origin budget p tokens).outcome = .ok f) :
    f.track.events <+: p.heardOf tokens := by
  obtain ⟨q, rest, plays, stops⟩ := run_ok ran
  rw [← heardOf_of_plays plays]
  cases stops with
  | spent | ended => exact prefix_heardOf q _
  | marked => simp [fragment, push, heardOf, Token.score, Track.ofEvents]

theorem prefix_of_goes (goes : Goes call origin budget p token q) :
    p.events.reverse <+: q.events.reverse := by
  cases goes with
  | timing | unknown => exact List.prefix_refl _
  | note | command | call =>
    simp only [note, push, called, List.reverse_cons]
    exact List.prefix_append _ _

theorem prefix_of_plays (plays : Plays call origin budget p tokens q rest) :
    p.events.reverse <+: q.events.reverse := by
  induction plays with
  | refl p tokens => exact List.prefix_refl _
  | step early goes further ih => exact (prefix_of_goes goes).trans ih

/-- A playback keeps what has been heard. -/
theorem prefix_of_run (ran : (run call origin budget p tokens).outcome = .ok f) :
    p.events.reverse <+: f.track.events := by
  obtain ⟨q, rest, plays, stops⟩ := run_ok ran
  refine (prefix_of_plays plays).trans ?_
  cases stops with
  | spent | ended => exact List.prefix_refl _
  | marked =>
    simp only [fragment, push, Track.ofEvents, List.reverse_cons]
    exact List.prefix_append _ _

/-- The events after a token do not depend on the ticks. -/
theorem events_of_goes {call' : UInt16 → UInt8 → Nat → Timing → Report Nat} {more : Nat}
    {q' : Playback} (goes : Goes call origin budget p token q)
    (goes' : Goes call' origin more p token q') : q'.events = q.events := by
  cases goes with
  | timing | note | unknown =>
    cases goes'
    rfl
  | command plain =>
    cases goes' with
    | command => rfl
    | call isCall => simp [plain] at isCall
  | call isCall =>
    cases goes' with
    | command plain => simp [isCall] at plain
    | call => rfl

end Playback

/-! ### Readings -/

namespace Fragment

variable {u : Uploads} {limits : Limits} {levels : Nat} {callers : List UInt16}
  {address : UInt16} {budget : Nat} {timing : Timing}

/-- A fragment that nothing uploads. -/
theorem read_of_absent (nonzero : address ≠ 0) (fresh : address ∉ callers)
    (absent : u.from? address = none) :
    read u limits (levels + 1) callers address budget timing = .fail (u.notFound address) := by
  rw [read, if_neg nonzero, if_neg fresh]
  simp only [Uploads.require, absent]

/-- A reading that succeeds is that of an empty track, or plays the bytes of its address. -/
theorem read_ok {f : Fragment}
    (found : (read u limits levels callers address budget timing).outcome = .ok f) :
    (address = 0 ∧ f = { track := .silent, ticks := 0 }) ∨
      ∃ rest bytes, levels = rest + 1 ∧ address ≠ 0 ∧ address ∉ callers ∧
        u.from? address = some bytes ∧
        (Playback.run (call u limits rest (address :: callers)) address budget { timing }
          (Token.lex bytes)).outcome = .ok f := by
  by_cases null : address = 0
  · rw [read.eq_def, if_pos null] at found
    exact .inl ⟨null, (Except.ok.inj found).symm⟩
  by_cases circular : address ∈ callers
  · rw [read.eq_def, if_neg null, if_pos circular] at found
    simp at found
  cases levels with
  | zero =>
    rw [read, if_neg null, if_neg circular] at found
    simp at found
  | succ rest =>
    cases there : u.from? address with
    | none =>
      rw [read_of_absent null circular there] at found
      simp at found
    | some bytes =>
      rw [read_of_found null circular there] at found
      exact .inr ⟨rest, bytes, rfl, null, circular, rfl, found⟩

/-- A reading reports an address as not found only where its own is not uploaded: calls of such
addresses are passed over. -/
theorem absent_of_read {missing : UInt16} {bank : UploadBank}
    (gone : (read u limits levels callers address budget timing).outcome =
      .error (.addressNotFound missing bank)) :
    ∃ rest, levels = rest + 1 ∧ address ≠ 0 ∧ address ∉ callers ∧ u.from? address = none := by
  by_cases null : address = 0
  · rw [read.eq_def, if_pos null] at gone
    simp at gone
  by_cases circular : address ∈ callers
  · rw [read.eq_def, if_neg null, if_pos circular] at gone
    simp at gone
  cases levels with
  | zero =>
    rw [read, if_neg null, if_neg circular] at gone
    simp at gone
  | succ rest =>
    cases there : u.from? address with
    | none => exact ⟨rest, rfl, null, circular, rfl⟩
    | some bytes =>
      rw [read_of_found null circular there] at gone
      exact absurd gone (Playback.outcome_run_ne
        (fun target repeats left t =>
          outcome_call_ne rest (address :: callers) target repeats left t missing bank)
        (fun opcode => by simp))

end Fragment

namespace Image

variable {image : Image} {bank : UploadBank} {limits : Limits} {address : UInt16}

theorem track_of_isLoaded (loaded : image.isLoaded = true) :
    image.track bank limits address =
      Fragment.track <$> (Uploads.ofImage image bank).fragment limits address := by
  rw [track, uploads, if_pos loaded]
  rfl

/-- A track that is read from an image is that of the fragment at its address. -/
theorem track_ok {track : Track} (read : (image.track bank limits address).outcome = .ok track) :
    image.isLoaded = true ∧ ∃ f,
      ((Uploads.ofImage image bank).fragment limits address).outcome = .ok f ∧ track = f.track := by
  by_cases loaded : image.isLoaded = true
  · rw [track_of_isLoaded loaded, Report.outcome_map] at read
    cases found : ((Uploads.ofImage image bank).fragment limits address).outcome with
    | error e => simp [found, Except.map] at read
    | ok f =>
      rw [found] at read
      exact ⟨loaded, f, rfl, (Except.ok.inj read).symm⟩
  · rw [Image.track, uploads, if_neg loaded, Report.outcome_bind] at read
    simp [bind, Except.bind] at read

end Image
end SnesMusic
