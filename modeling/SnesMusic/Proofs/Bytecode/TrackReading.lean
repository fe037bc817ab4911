import SnesMusic.Bytecode.Fragment
import SnesMusic.Proofs.Bytecode.Canonical

/-!
# Reading encoded tracks

What the token reader and the playback make of a track's bytes. Main statements: the bytes of an
encoded track are read as its tokens and nothing behind its end marker is looked at
(`lexFrom_encodeFrom`), playing those tokens is playing the track's events (`run_tokensFrom`), and
where calls take no ticks and the ticks do not run out, that gives the events in canonical form
(`playFrom_eq_canonicalFrom`).
-/
namespace SnesMusic

open LittleEndian

/-! ### Classes of bytes -/

theorem isDuration_iff (b : UInt8) : isDuration b = true ↔ 0 < b.toNat ∧ b.toNat < 128 := by
  simp only [isDuration, Bool.and_eq_true, decide_eq_true_eq, UInt8.le_iff_toNat_le,
    UInt8.lt_iff_toNat_lt, UInt8.reduceToNat]
  omega

theorem isPitch_iff (b : UInt8) : isPitch b = true ↔ 128 ≤ b.toNat ∧ b.toNat ≤ 201 := by
  simp only [isPitch, lowestPitch, restPitch, Bool.and_eq_true, decide_eq_true_eq,
    UInt8.le_iff_toNat_le, UInt8.reduceToNat]

theorem isOpcode_iff (b : UInt8) : isOpcode b = true ↔ 224 ≤ b.toNat := by
  simp only [isOpcode, firstOpcode, decide_eq_true_eq, UInt8.le_iff_toNat_le, UInt8.reduceToNat]

/-- Velocity is in force already where it is not stated. -/
theorem Timing.velocity_of_lead_ne {t next : Timing} (h : t.lead next ≠ .withVelocity) :
    next.velocity = t.velocity := by
  unfold lead at h
  split at h
  · exact absurd rfl h
  · rename_i same
    simpa using same

theorem ne_zero_of_isDuration {b : UInt8} (h : isDuration b = true) : b ≠ 0 := by
  rintro rfl
  exact absurd h (by decide)

theorem ne_zero_of_isPitch {b : UInt8} (h : isPitch b = true) : b ≠ 0 := by
  rintro rfl
  exact absurd h (by decide)

theorem ne_zero_of_isOpcode {b : UInt8} (h : isOpcode b = true) : b ≠ 0 := by
  rintro rfl
  exact absurd h (by decide)

theorem not_isDuration_of_isPitch {b : UInt8} (h : isPitch b = true) : isDuration b = false := by
  have range := (isPitch_iff b).mp h
  apply Bool.eq_false_iff.mpr
  rw [ne_eq, isDuration_iff]
  omega

theorem not_isDuration_of_isOpcode {b : UInt8} (h : isOpcode b = true) : isDuration b = false := by
  have range := (isOpcode_iff b).mp h
  apply Bool.eq_false_iff.mpr
  rw [ne_eq, isDuration_iff]
  omega

theorem not_isPitch_of_isOpcode {b : UInt8} (h : isOpcode b = true) : isPitch b = false := by
  have range := (isOpcode_iff b).mp h
  apply Bool.eq_false_iff.mpr
  rw [ne_eq, isPitch_iff]
  omega

/-! ### Tokens -/

namespace Token

theorem width_pos (token : Token) : 0 < token.width := by
  cases token with
  | timing _ velocity => cases velocity <;> simp [width]
  | note _ | unknown _ _ | truncated _ | finish => simp [width]
  | command _ => exact Nat.le_add_right 1 _

theorem lexFrom_cons (index : Nat) (byte : UInt8) (rest : List UInt8) :
    lexFrom [] index (byte :: rest) =
      read index byte rest ::
        if (read index byte rest).isLast then []
        else lexFrom [] (index + (read index byte rest).width)
          (rest.drop ((read index byte rest).width - 1)) := by
  rw [lexFrom]
  split
  · rfl
  · rw [lexFrom_eq]
    rfl

/-- What holds of every token that can be read holds of all tokens of a track. -/
theorem forall_lexFrom {P : Token → Prop} (each : ∀ index byte rest, P (read index byte rest))
    {index : Nat} {bytes : List UInt8} : ∀ token ∈ lexFrom [] index bytes, P token := by
  induction length : bytes.length using Nat.strongRecOn generalizing index bytes with
  | ind n ih =>
    cases bytes with
    | nil => simp [lexFrom]
    | cons byte rest =>
      rw [lexFrom_cons]
      intro token member
      rcases List.mem_cons.mp member with rfl | later
      · exact each _ _ _
      · split at later
        · simp at later
        · refine ih _ ?_ rfl token later
          rw [List.length_cons] at length
          rw [List.length_drop]
          omega

@[simp] theorem read_zero (index : Nat) (rest : List UInt8) : read index 0 rest = .finish := rfl

theorem read_of_isDuration {b : UInt8} (h : isDuration b = true) (index : Nat) (rest : List UInt8) :
    read index b rest = .timing b (rest.head?.filter isDuration) := by
  rw [read, if_neg (ne_zero_of_isDuration h), if_pos h]

theorem read_of_isPitch {b : UInt8} (h : isPitch b = true) (index : Nat) (rest : List UInt8) :
    read index b rest = .note b := by
  rw [read, if_neg (ne_zero_of_isPitch h), not_isDuration_of_isPitch h, if_pos h]
  simp

/-- An opcode with all its parameters behind it is read as a command. -/
theorem read_of_isOpcode {c : Command} (h : isOpcode c.opcode = true) (index : Nat)
    (rest : List UInt8) :
    read index c.opcode (c.used ++ rest) = .command (.ofParams c.opcode c.params) := by
  have params : (c.used ++ rest).take (arity c.opcode) = c.used := by
    rw [← c.length_used, List.take_left']
    rfl
  rw [read, if_neg (ne_zero_of_isOpcode h), not_isDuration_of_isOpcode h,
    not_isPitch_of_isOpcode h, if_pos h]
  simp only [Bool.false_eq_true, if_false, params, c.length_used, Nat.lt_irrefl,
    Command.ofParams_used]

end Token

namespace Event

/-- The tokens that an encoded event is read as. -/
def tokens (t : Timing) : Event → List Token
  | .note n =>
    match t.lead n.timing with
    | .none => [.note n.pitch]
    | .duration => [.timing n.duration none, .note n.pitch]
    | .withVelocity => [.timing n.duration (some n.velocity), .note n.pitch]
  | .command c => [.command (.ofParams c.opcode c.params)]
  | .call address repeats => [.command {
      opcode := callOpcode, first := lowByte address, second := highByte address,
      third := repeats }]
  | .finish => [.finish]

/-- What an encodable note consists of. -/
theorem note_of_fault?_eq_none {t : Timing} {n : Note} (h : (Event.note n).fault? t = none) :
    isPitch n.pitch = true ∧
      (t.lead n.timing ≠ .none → isDuration n.duration = true) ∧
      (t.lead n.timing = .withVelocity → isDuration n.velocity = true) := by
  have pitch : isPitch n.pitch = true := by
    cases p : isPitch n.pitch with
    | true => rfl
    | false => simp [fault?, p] at h
  simp only [fault?, pitch, Bool.not_true, Bool.false_eq_true, if_false] at h
  cases lead : t.lead n.timing with
  | none => exact ⟨pitch, by simp, by simp⟩
  | duration =>
    simp only [lead] at h
    exact ⟨pitch, fun _ => by simpa using h, by simp⟩
  | withVelocity =>
    simp only [lead] at h
    have duration : isDuration n.duration = true := by
      cases d : isDuration n.duration with
      | true => rfl
      | false => simp [d] at h
    exact ⟨pitch, fun _ => duration, fun _ => by simpa [duration] using h⟩

/-- An encoded event is read as its tokens, whatever follows it. -/
theorem lexFrom_encode {t : Timing} {e : Event} (encodable : e.fault? t = none)
    (ne : e ≠ .finish) (index : Nat) (rest : List UInt8) :
    Token.lexFrom [] index (e.encode t ++ rest) =
      e.tokens t ++ Token.lexFrom [] (index + (e.encode t).length) rest := by
  cases e with
  | finish => exact absurd rfl ne
  | note n =>
    obtain ⟨pitch, duration, velocity⟩ := note_of_fault?_eq_none encodable
    have silent := not_isDuration_of_isPitch pitch
    cases lead : t.lead n.timing with
    | none =>
      simp only [encode, tokens, lead, Lead.bytes, List.nil_append, List.singleton_append]
      rw [Token.lexFrom_cons, Token.read_of_isPitch pitch]
      rfl
    | duration =>
      simp only [encode, tokens, lead, Lead.bytes, List.cons_append, List.nil_append]
      rw [Token.lexFrom_cons, Token.read_of_isDuration (duration (by simp [lead]))]
      simp only [List.head?_cons, Option.filter_some, silent, Bool.false_eq_true, if_false]
      simp only [Token.isLast, Token.width, Bool.false_eq_true, if_false, Nat.sub_self,
        List.drop_zero]
      rw [Token.lexFrom_cons, Token.read_of_isPitch pitch]
      rfl
    | withVelocity =>
      simp only [encode, tokens, lead, Lead.bytes, List.cons_append, List.nil_append]
      rw [Token.lexFrom_cons, Token.read_of_isDuration (duration (by simp [lead]))]
      simp only [List.head?_cons, Option.filter_some, velocity lead, if_true]
      simp only [Token.isLast, Token.width, Bool.false_eq_true, if_false, Nat.add_one_sub_one,
        List.drop_succ_cons, List.drop_zero]
      rw [Token.lexFrom_cons, Token.read_of_isPitch pitch]
      rfl
  | command c =>
    have opcode : isOpcode c.opcode = true := by simpa [fault?] using encodable
    simp only [encode, tokens, List.cons_append]
    rw [Token.lexFrom_cons, Token.read_of_isOpcode opcode]
    simp only [Token.isLast, Token.width, Bool.false_eq_true, if_false, Command.opcode_ofParams,
      List.nil_append, List.length_cons, c.length_used, Nat.add_comm 1, Nat.add_sub_cancel,
      List.drop_left' c.length_used]
  | call address repeats =>
    have opcode : isOpcode callOpcode = true := by decide
    have read := Token.read_of_isOpcode
      (c := { opcode := callOpcode, first := lowByte address, second := highByte address,
              third := repeats }) opcode index rest
    simp only [Command.used, Command.params, Command.arity_callOpcode, List.take_succ_cons,
      List.take_zero, Command.ofParams_callOpcode] at read
    simp only [encode, tokens, List.cons_append, List.nil_append] at read ⊢
    rw [Token.lexFrom_cons, read]
    simp only [Token.isLast, Token.width, Bool.false_eq_true, if_false, Command.arity_callOpcode,
      Nat.add_sub_cancel_left, List.drop_succ_cons, List.drop_zero, List.length_cons,
      List.length_nil]

end Event

namespace Track

/-- The tokens of an encoded track. -/
def tokensFrom (t : Timing) : List Event → List Token
  | [] => [.finish]
  | .finish :: _ => [.finish]
  | e :: rest => e.tokens t ++ tokensFrom (e.after t) rest

theorem tokensFrom_cons {e : Event} (h : e ≠ .finish) (t : Timing) (rest : List Event) :
    tokensFrom t (e :: rest) = e.tokens t ++ tokensFrom (e.after t) rest := by
  cases e <;> first | rfl | exact absurd rfl h

/-- An encodable event in front of encodable events. -/
theorem encodeFrom_cons_ok {e : Event} (ne : e ≠ .finish) {t : Timing} {rest : List Event}
    (encodable : (encodeFrom [] t (e :: rest)).fault = none) :
    e.fault? t = none ∧ (encodeFrom [] (e.after t) rest).fault = none ∧
      (encodeFrom [] t (e :: rest)).bytes =
        e.encode t ++ (encodeFrom [] (e.after t) rest).bytes := by
  rw [encodeFrom_cons ne] at encodable ⊢
  cases faulty : e.fault? t with
  | some fault => simp [faulty] at encodable
  | none =>
    simp only [faulty] at encodable ⊢
    have split := encodeFrom_eq ((e.encode t).reverse ++ []) (e.after t) rest
    rw [split] at encodable ⊢
    exact ⟨trivial, encodable, by simp⟩

/-- The bytes of a track are read as its tokens. What stands behind the end marker is not read. -/
theorem lexFrom_encodeFrom {t : Timing} {events : List Event}
    (encodable : (encodeFrom [] t events).fault = none) (index : Nat) (behind : List UInt8) :
    Token.lexFrom [] index ((encodeFrom [] t events).bytes ++ behind) = tokensFrom t events := by
  induction events generalizing t index with
  | nil =>
    simp only [encodeFrom, List.reverse_singleton, List.singleton_append, tokensFrom]
    rw [Token.lexFrom_cons, Token.read_zero]
    rfl
  | cons e rest ih =>
    by_cases last : e = .finish
    · subst last
      simp only [encodeFrom, List.reverse_singleton, List.singleton_append, tokensFrom]
      rw [Token.lexFrom_cons, Token.read_zero]
      rfl
    · obtain ⟨first, others, bytes⟩ := encodeFrom_cons_ok last encodable
      rw [bytes, List.append_assoc, Event.lexFrom_encode first last, ih others,
        tokensFrom_cons last]

end Track

/-! ### Playback -/

namespace Event

/-- Target and count of a subroutine call, one that is written as a raw command included. -/
def call? : Event → Option (UInt16 × UInt8)
  | .call address repeats => some (address, repeats)
  | .command c => if c.opcode = callOpcode then some (c.target, c.repeats) else none
  | _ => none

/-- The ticks after an event other than a call. -/
def advance (ticks : Nat) : Event → Nat
  | .note n => addTicks ticks (Event.note n).ticks
  | _ => ticks

theorem advance_le (ticks : Nat) (e : Event) : e.advance ticks ≤ ticks + e.ticks := by
  cases e with
  | note n => exact Nat.min_le_left _ _
  | command c => exact Nat.le_add_right _ _
  | call address repeats => exact Nat.le_add_right _ _
  | finish => exact Nat.le_add_right _ _

end Event

namespace Track

/-- What is heard of events when they are played from the timing `t` on, with the ticks after them:
playing ends when the ticks are used up, and a call takes the ticks that `call` gives for it. -/
def playFrom (call : UInt16 → UInt8 → Nat → Timing → Report Nat) (budget : Nat) (ticks : Nat)
    (t : Timing) : List Event → Except MusicError (List Event × Nat)
  | [] => .ok (if budget ≤ ticks then [] else [.finish], ticks)
  | .finish :: _ => .ok (if budget ≤ ticks then [] else [.finish], ticks)
  | e :: rest =>
    if budget ≤ ticks then .ok ([], ticks)
    else match e.call? with
      | some (address, repeats) =>
        match (call address repeats (budget - ticks) t).outcome with
        | .error err => .error err
        | .ok spent =>
          (playFrom call budget (addTicks ticks spent) (e.after t) rest).map fun later =>
            (e.canonical t :: later.1, later.2)
      | none =>
        (playFrom call budget (e.advance ticks) (e.after t) rest).map fun later =>
          (e.canonical t :: later.1, later.2)

theorem playFrom_cons {e : Event} (h : e ≠ .finish)
    (call : UInt16 → UInt8 → Nat → Timing → Report Nat) (budget ticks : Nat) (t : Timing)
    (rest : List Event) :
    playFrom call budget ticks t (e :: rest) =
      if budget ≤ ticks then .ok ([], ticks)
      else match e.call? with
        | some (address, repeats) =>
          match (call address repeats (budget - ticks) t).outcome with
          | .error err => .error err
          | .ok spent =>
            (playFrom call budget (addTicks ticks spent) (e.after t) rest).map fun later =>
              (e.canonical t :: later.1, later.2)
        | none =>
          (playFrom call budget (e.advance ticks) (e.after t) rest).map fun later =>
            (e.canonical t :: later.1, later.2) := by
  cases e <;> first | rfl | exact absurd rfl h

end Track

namespace Playback

/-- The playback after an encoded event, the ticks given apart. -/
def hear (p : Playback) (t : Timing) (e : Event) (ticks : Nat) : Playback :=
  { p with
    timing := e.after t
    emitted := e.after t
    ticks
    events := e.canonical t :: p.events }

variable {call : UInt16 → UInt8 → Nat → Timing → Report Nat} {origin : UInt16} {budget : Nat}

/-- Nothing is played once the ticks are used up. -/
theorem run_of_budget_le {p : Playback} {tokens : List Token} (late : budget ≤ p.ticks) :
    run call origin budget p tokens = p.done := by
  cases tokens with
  | nil => rw [run]
  | cons token others => cases token <;> rw [run, if_pos late]

/-- The timing of an encoded note is set by the bytes in front of it, or in force already. -/
theorem run_tokens_note {p : Playback} {t : Timing} {n : Note} (rest : List Token)
    (encodable : (Event.note n).fault? t = none) (timing : p.timing = t) (emitted : p.emitted = t)
    (below : p.ticks < budget) :
    run call origin budget p ((Event.note n).tokens t ++ rest) =
      run call origin budget (p.hear t (.note n) ((Event.note n).advance p.ticks)) rest := by
  have open' : ¬budget ≤ p.ticks := Nat.not_le.mpr below
  obtain ⟨pitch, -, -⟩ := Event.note_of_fault?_eq_none encodable
  have after : (Event.note n).after t = n.timing := by simp [Event.after, pitch]
  have played : ∀ q : Playback, q.timing = n.timing → q.emitted = t → q.ticks = p.ticks →
      q.events = p.events → q.notices = p.notices →
      q.note n.pitch = p.hear t (.note n) ((Event.note n).advance p.ticks) := by
    intro q h₁ h₂ h₃ h₄ h₅
    obtain ⟨qt, qe, qk, qv, qn⟩ := q
    subst h₁ h₂ h₃ h₄ h₅
    simp only [note, hear, after]
    rfl
  cases lead : t.lead n.timing with
  | none =>
    have same : n.timing = t := Timing.lead_eq_none_iff.mp lead
    simp only [Event.tokens, lead, List.singleton_append]
    rw [run, if_neg open']
    simp only [played p (timing.trans same.symm) emitted rfl rfl rfl]
  | duration =>
    have velocity : n.velocity = t.velocity :=
      Timing.velocity_of_lead_ne (show t.lead n.timing ≠ .withVelocity by simp [lead])
    simp only [Event.tokens, lead, List.cons_append, List.nil_append]
    rw [run, if_neg open']
    have open'' : ¬budget ≤ (p.setTiming n.duration none).ticks := open'
    rw [run, if_neg open'']
    have set : (p.setTiming n.duration none).timing = n.timing := by
      simp only [setTiming, Option.getD_none, timing, ← velocity]
      rfl
    simp only [played (p.setTiming n.duration none) set emitted rfl rfl rfl]
  | withVelocity =>
    simp only [Event.tokens, lead, List.cons_append, List.nil_append]
    rw [run, if_neg open']
    have open'' : ¬budget ≤ (p.setTiming n.duration (some n.velocity)).ticks := open'
    rw [run, if_neg open'']
    simp only [played (p.setTiming n.duration (some n.velocity)) rfl emitted rfl rfl rfl]

/-- A command that is no call changes nothing but the events. -/
theorem run_tokens_command {p : Playback} {t : Timing} {c : Command} (rest : List Token)
    (ne : c.opcode ≠ callOpcode) (timing : p.timing = t) (emitted : p.emitted = t)
    (below : p.ticks < budget) :
    run call origin budget p ((Event.command c).tokens t ++ rest) =
      run call origin budget (p.hear t (.command c) p.ticks) rest := by
  have other : (Command.ofParams c.opcode c.params).isCall = false := by simpa using ne
  simp only [Event.tokens, List.singleton_append]
  rw [run, if_neg (Nat.not_le.mpr below)]
  simp only [other, Bool.false_eq_true, if_false]
  obtain ⟨qt, qe, qk, qv, qn⟩ := p
  simp only at timing emitted
  subst timing
  subst emitted
  rfl

/-- A call plays its target from the timing in force and goes on from the same timing. -/
theorem run_tokens_call {p : Playback} {t : Timing} {e : Event} {address : UInt16} {repeats : UInt8}
    (rest : List Token) (called : e.call? = some (address, repeats)) (timing : p.timing = t)
    (emitted : p.emitted = t) (below : p.ticks < budget) :
    (run call origin budget p (e.tokens t ++ rest)).outcome =
      match (call address repeats (budget - p.ticks) t).outcome with
      | .error err => .error err
      | .ok ticks =>
        (run call origin budget
          { p.hear t e (addTicks p.ticks ticks) with
            notices := (call address repeats (budget - p.ticks) t).notices.reverse ++ p.notices }
          rest).outcome := by
  have tokens : e.tokens t = [.command {
      opcode := callOpcode, first := lowByte address, second := highByte address,
      third := repeats }] := by
    cases e with
    | note n => simp [Event.call?] at called
    | finish => simp [Event.call?] at called
    | call a r =>
      simp only [Event.call?, Option.some.injEq, Prod.mk.injEq] at called
      obtain ⟨rfl, rfl⟩ := called
      rfl
    | command c =>
      obtain ⟨opcode, a, b, d⟩ := c
      simp only [Event.call?, Option.ite_none_right_eq_some, Option.some.injEq,
        Prod.mk.injEq] at called
      obtain ⟨rfl, rfl, rfl⟩ := called
      simp only [Event.tokens, Command.params, Command.ofParams_callOpcode, Command.target,
        Command.repeats, lowByte_word, highByte_word]
  have canonical : e.canonical t = .call address repeats := by
    cases e with
    | note n => simp [Event.call?] at called
    | finish => simp [Event.call?] at called
    | call a r => simpa [Event.call?, Event.canonical] using called
    | command c =>
      simp only [Event.call?, Option.ite_none_right_eq_some, Option.some.injEq,
        Prod.mk.injEq] at called
      obtain ⟨opcode, rfl, rfl⟩ := called
      exact Event.canonical_command_of_call t opcode
  have after : e.after t = t := by
    cases e <;> first | rfl | simp [Event.call?] at called
  rw [tokens, List.singleton_append, run, if_neg (Nat.not_le.mpr below)]
  simp only [Command.isCall, beq_self_eq_true, if_true, Command.target, Command.repeats,
    word_bytes, timing]
  cases outcome : (call address repeats (budget - p.ticks) t).outcome with
  | error err => rfl
  | ok ticks =>
    simp only [hear, push, Event.ofCommand, Command.isCall, beq_self_eq_true, if_true,
      Command.target, Command.repeats, word_bytes, canonical, after]
    obtain ⟨qt, qe, qk, qv, qn⟩ := p
    simp only at timing emitted
    subst timing
    subst emitted
    rfl

/-- Playing the bytes of an encoded track is playing its events. -/
theorem run_tokensFrom {t : Timing} {events : List Event} {p : Playback}
    (encodable : (Track.encodeFrom [] t events).fault = none) (timing : p.timing = t)
    (emitted : p.emitted = t) :
    (run call origin budget p (Track.tokensFrom t events)).outcome =
      (Track.playFrom call budget p.ticks t events).map fun heard =>
        { track := Track.ofEvents (p.events.reverse ++ heard.1), ticks := heard.2 } := by
  induction events generalizing t p with
  | nil =>
    simp only [Track.tokensFrom, Track.playFrom]
    unfold run
    split <;> simp [done, push, Except.map]
  | cons e rest ih =>
    by_cases last : e = .finish
    · subst last
      simp only [Track.tokensFrom, Track.playFrom]
      unfold run
      split <;> simp [done, push, Except.map]
    · obtain ⟨first, others, -⟩ := Track.encodeFrom_cons_ok last encodable
      rw [Track.tokensFrom_cons last, Track.playFrom_cons last]
      by_cases late : budget ≤ p.ticks
      · rw [if_pos late]
        rw [run_of_budget_le late]
        simp [done, Except.map]
      · have below : p.ticks < budget := Nat.lt_of_not_le late
        rw [if_neg late]
        cases called : e.call? with
        | some target =>
          obtain ⟨address, repeats⟩ := target
          rw [run_tokens_call _ called timing emitted below]
          simp only
          cases (call address repeats (budget - p.ticks) t).outcome with
          | error err => rfl
          | ok ticks =>
            simp only
            rw [ih others rfl rfl]
            simp only [hear]
            cases Track.playFrom call budget (addTicks p.ticks ticks) (e.after t) rest with
            | error err => rfl
            | ok heard => simp [Except.map]
        | none =>
          have step : run call origin budget p
                (e.tokens t ++ Track.tokensFrom (e.after t) rest) =
              run call origin budget (p.hear t e (e.advance p.ticks))
                (Track.tokensFrom (e.after t) rest) := by
            cases e with
            | finish => exact absurd rfl last
            | call a r => simp [Event.call?] at called
            | note n => exact run_tokens_note _ first timing emitted below
            | command c =>
              have ne : c.opcode ≠ callOpcode := by simpa [Event.call?] using called
              exact run_tokens_command _ ne timing emitted below
          rw [step, ih others rfl rfl]
          simp only [hear]
          cases Track.playFrom call budget (e.advance p.ticks) (e.after t) rest with
          | error err => rfl
          | ok heard => simp [Except.map]

end Playback

namespace Track

/-- Where the calls of a track take no ticks and the ticks do not run out before its end, all of its
events are heard. -/
theorem playFrom_eq_canonicalFrom {call : UInt16 → UInt8 → Nat → Timing → Report Nat}
    {budget ticks : Nat} {t : Timing} {events : List Event}
    (idle : ∀ e ∈ beforeEnd events, ∀ address repeats,
      e.call? = some (address, repeats) →
        ∀ left timing, (call address repeats left timing).outcome = .ok 0)
    (short : ticks + ticksBeforeEnd events < budget) :
    ∃ total, playFrom call budget ticks t events = .ok (canonicalFrom t events, total) := by
  induction events generalizing ticks t with
  | nil =>
    have below : ¬budget ≤ ticks := by simpa [ticksBeforeEnd, beforeEnd] using short
    exact ⟨ticks, by simp [playFrom, canonicalFrom, below]⟩
  | cons e rest ih =>
    by_cases last : e = .finish
    · subst last
      have below : ¬budget ≤ ticks := by simpa [ticksBeforeEnd, beforeEnd] using short
      exact ⟨ticks, by simp [playFrom, canonicalFrom, below]⟩
    · simp only [beforeEnd_cons last, List.mem_cons, forall_eq_or_imp] at idle
      rw [ticksBeforeEnd_cons last] at short
      obtain ⟨here, later⟩ := idle
      have below : ¬budget ≤ ticks := by omega
      rw [playFrom_cons last, canonicalFrom_cons last, if_neg below]
      cases called : e.call? with
      | some target =>
        obtain ⟨address, repeats⟩ := target
        have same : addTicks ticks 0 ≤ ticks := Nat.min_le_left _ _
        have below' : addTicks ticks 0 + ticksBeforeEnd rest < budget := by omega
        obtain ⟨total, heard⟩ := ih (t := e.after t) later below'
        refine ⟨total, ?_⟩
        simp only [here address repeats called, heard]
        rfl
      | none =>
        have bound := e.advance_le ticks
        have below' : e.advance ticks + ticksBeforeEnd rest < budget := by omega
        obtain ⟨total, heard⟩ := ih (t := e.after t) later below'
        refine ⟨total, ?_⟩
        simp only [heard]
        rfl

end Track
end SnesMusic
