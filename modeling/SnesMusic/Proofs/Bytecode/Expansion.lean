import SnesMusic.Proofs.Bytecode.Replay
import SnesMusic.Proofs.Bytecode.SongReading

/-!
# Expansions

What a track comes to when its calls are played out: each call is replaced by as many copies of its
fragment, expanded in turn, as it is repeated. Main statements: a track that was read and encoded is
read again as it was from uploads that hold the same fragments (`track_reread`), and its expansion
stays the same (`expansion_replayed`).
-/
namespace SnesMusic

open LittleEndian

namespace Uploads

/-- The fragments that the calls of the fragment at an address lead to. -/
def LeadsTo (u : Uploads) (address target : UInt16) : Prop :=
  ∃ bytes c, u.from? address = some bytes ∧ Token.command c ∈ Token.lex bytes ∧ c.isCall = true ∧
    c.repeats ≠ 0 ∧ u.Reaches c.target target

/-- The events of the fragment that is read for a call at timing `t`; none where it cannot be
read. -/
def fragmentEvents (u : Uploads) (limits : Limits) (address : UInt16) (t : Timing) : List Event :=
  match (Fragment.read u limits limits.depth [] address limits.ticks t).outcome with
  | .ok f => f.track.events
  | .error _ => []

end Uploads

/-- The events up to the end marker, with `callee` in place of each repetition of a call. -/
def expandWith (callee : UInt16 → Timing → List Event) (t : Timing) : List Event → List Event
  | [] => []
  | .finish :: _ => []
  | .call address repeats :: rest =>
    (List.replicate repeats.toNat (callee address t)).flatten ++ expandWith callee t rest
  | .note n :: rest => .note n :: expandWith callee ((Event.note n).after t) rest
  | .command c :: rest => .command c :: expandWith callee t rest

namespace Uploads

/-- What a called fragment comes to when calls are expanded to a depth of `levels`. -/
def callee (u : Uploads) (limits : Limits) : Nat → UInt16 → Timing → List Event
  | 0, _, _ => []
  | levels + 1, address, t =>
    expandWith (callee u limits levels) t (u.fragmentEvents limits address t)

/-- What a track comes to when its calls are expanded to a depth of `levels`. -/
def expansion (u : Uploads) (limits : Limits) (levels : Nat) (track : Track) : List Event :=
  if track.empty then [] else expandWith (u.callee limits levels) {} track.events

end Uploads

/-! ### Fragments that stay the same -/

/-- Expansions depend on the fragments that are called repeatedly. -/
theorem expandWith_congr {callee callee' : UInt16 → Timing → List Event} {t : Timing}
    {events : List Event}
    (same : ∀ address repeats, .call address repeats ∈ events → repeats ≠ 0 →
      ∀ t, callee' address t = callee address t) :
    expandWith callee' t events = expandWith callee t events := by
  induction events generalizing t with
  | nil => rfl
  | cons e rest ih =>
    have later := fun t => ih (t := t) fun address repeats member =>
      same address repeats (List.mem_cons_of_mem _ member)
    cases e with
    | finish => rfl
    | note n => rw [expandWith, expandWith, later]
    | command c => rw [expandWith, expandWith, later]
    | call address repeats =>
      rw [expandWith, expandWith, later]
      by_cases unrepeated : repeats = 0
      · simp [unrepeated]
      · rw [same address repeats (List.mem_cons_self ..) unrepeated]

/-- An end marker more does not count. -/
theorem expandWith_append_finish (callee : UInt16 → Timing → List Event) (t : Timing)
    (events : List Event) :
    expandWith callee t (events ++ [.finish]) = expandWith callee t events := by
  induction events generalizing t with
  | nil => rfl
  | cons e rest ih =>
    rw [List.cons_append]
    cases e with
    | finish => rfl
    | note n => rw [expandWith, expandWith, ih]
    | command c => rw [expandWith, expandWith, ih]
    | call address repeats => rw [expandWith, expandWith, ih]

/-- The calls that were heard are among the tokens. -/
theorem Playback.calls_of_run {call : UInt16 → UInt8 → Nat → Timing → Report Nat} {origin : UInt16}
    {budget : Nat} {p : Playback} {tokens : List Token} {f : Fragment}
    (ran : (run call origin budget p tokens).outcome = .ok f) {address : UInt16} {repeats : UInt8}
    (heard : .call address repeats ∈ f.track.events) :
    .call address repeats ∈ p.events ∨
      ∃ c, Token.command c ∈ tokens ∧ c.isCall = true ∧ c.target = address ∧
        c.repeats = repeats := by
  induction tokens generalizing p with
  | nil =>
    unfold run at ran
    simp only [done, Except.ok.injEq] at ran
    subst ran
    exact Or.inl (by simpa [Track.ofEvents] using heard)
  | cons token rest ih =>
    have widen : (∃ c, Token.command c ∈ rest ∧ c.isCall = true ∧ c.target = address ∧
          c.repeats = repeats) →
        ∃ c, Token.command c ∈ token :: rest ∧ c.isCall = true ∧ c.target = address ∧
          c.repeats = repeats := by
      rintro ⟨c, member, rest⟩
      exact ⟨c, List.mem_cons_of_mem _ member, rest⟩
    by_cases late : budget ≤ p.ticks
    · have stopped : (run call origin budget p (token :: rest)) = p.done := by
        cases token <;> rw [run, if_pos late]
      rw [stopped] at ran
      simp only [done, Except.ok.injEq] at ran
      subst ran
      exact Or.inl (by simpa [Track.ofEvents] using heard)
    · cases token with
      | finish =>
        rw [run, if_neg late] at ran
        simp only [done, push, Except.ok.injEq] at ran
        subst ran
        exact Or.inl (by simpa [Track.ofEvents] using heard)
      | truncated opcode =>
        rw [run, if_neg late] at ran
        simp [fail] at ran
      | timing duration velocity =>
        rw [run, if_neg late] at ran
        exact (ih ran).imp id widen
      | unknown index byte =>
        rw [run, if_neg late] at ran
        exact (ih (p := p.skip origin index byte) ran).imp id widen
      | note pitch =>
        rw [run, if_neg late] at ran
        exact (ih ran).imp (by simp [note]) widen
      | command c =>
        rw [run, if_neg late] at ran
        have pushed : .call address repeats ∈ Event.ofCommand c :: p.events →
            .call address repeats ∈ p.events ∨
              ∃ c', Token.command c' ∈ Token.command c :: rest ∧ c'.isCall = true ∧
                c'.target = address ∧ c'.repeats = repeats := by
          intro member
          rcases List.mem_cons.mp member with here | before
          · cases called : c.isCall with
            | false => simp [Event.ofCommand, called] at here
            | true =>
              simp only [Event.ofCommand, called, if_true, Event.call.injEq] at here
              exact Or.inr ⟨c, List.mem_cons_self .., called, here.1.symm, here.2.symm⟩
          · exact Or.inl before
        cases called : c.isCall with
        | false =>
          simp only [called, Bool.false_eq_true, if_false] at ran
          rcases ih ran with before | later
          · exact pushed before
          · exact Or.inr (widen later)
        | true =>
          simp only [called, if_true] at ran
          cases outcome : (call c.target c.repeats (budget - p.ticks) p.timing).outcome with
          | error e => simp [outcome, fail] at ran
          | ok spent =>
            simp only [outcome] at ran
            rcases ih ran with before | later
            · exact pushed before
            · exact Or.inr (widen later)

namespace Uploads

variable {u v : Uploads} {limits : Limits}

theorem fragmentEvents_congr (bank : v.bank = u.bank) {address : UInt16}
    (same : ∀ x, u.Reaches address x → v.from? x = u.from? x) (t : Timing) :
    v.fragmentEvents limits address t = u.fragmentEvents limits address t := by
  rw [fragmentEvents, fragmentEvents, Fragment.read_congr bank same]

/-- What the calls in a fragment's events lead to, the fragment reaches. -/
theorem reaches_of_fragmentEvents {address target : UInt16} {t : Timing} {repeats : UInt8}
    (heard : .call target repeats ∈ u.fragmentEvents limits address t) (repeated : repeats ≠ 0)
    {x : UInt16} (further : u.Reaches target x) : u.Reaches address x := by
  unfold fragmentEvents at heard
  cases read : (Fragment.read u limits limits.depth [] address limits.ticks t).outcome with
  | error e => simp [read] at heard
  | ok f =>
    simp only [read] at heard
    rw [Fragment.read.eq_def] at read
    by_cases null : address = 0
    · rw [if_pos null] at read
      simp only [Report.outcome_ok, Except.ok.injEq] at read
      subst read
      simp [Track.silent] at heard
    · rw [if_neg null, if_neg List.not_mem_nil] at read
      cases deep : limits.depth with
      | zero => simp [deep] at read
      | succ levels =>
        cases found : u.from? address with
        | none => simp [deep, require, found] at read
        | some bytes =>
          simp only [deep, require, found] at read
          rcases Playback.calls_of_run read heard with before | ⟨c, listed, called, rfl, rfl⟩
          · simp at before
          · exact .call found listed called repeated further

theorem callee_congr (bank : v.bank = u.bank) (levels : Nat) {address : UInt16}
    (same : ∀ x, u.Reaches address x → v.from? x = u.from? x) (t : Timing) :
    v.callee limits levels address t = u.callee limits levels address t := by
  induction levels generalizing address t with
  | zero => rfl
  | succ levels ih =>
    rw [callee, callee, fragmentEvents_congr bank same]
    exact expandWith_congr fun target repeats heard repeated t =>
      ih (fun x further => same x (reaches_of_fragmentEvents heard repeated further)) t

/-! ### Tracks that are read again -/

/-- A track that is read is silent or the playback of the bytes at its address. -/
theorem track_ok {word : UInt16} {track : Track}
    (read : (u.track limits word).outcome = .ok track) :
    track = .silent ∨
      ∃ levels bytes f, limits.depth = levels + 1 ∧ u.from? word = some bytes ∧
        (Playback.run (Fragment.call u limits levels [word]) word limits.ticks { timing := {} }
          (Token.lex bytes)).outcome = .ok f ∧ track = f.track := by
  rw [Uploads.track, Report.outcome_map] at read
  cases outcome : (u.fragment limits word).outcome with
  | error e => simp [outcome, Except.map] at read
  | ok f =>
    simp only [outcome, Except.map, Except.ok.injEq] at read
    subst read
    unfold fragment at outcome
    by_cases null : word = 0
    · rw [Fragment.read.eq_def, if_pos null] at outcome
      simp only [Report.outcome_ok, Except.ok.injEq] at outcome
      exact Or.inl (by rw [← outcome])
    · right
      cases deep : limits.depth with
      | zero =>
        rw [Fragment.read.eq_def, if_neg null, if_neg List.not_mem_nil, deep] at outcome
        simp at outcome
      | succ levels =>
        cases found : u.from? word with
        | none =>
          rw [Fragment.read.eq_def, if_neg null, if_neg List.not_mem_nil, deep] at outcome
          simp [require, found] at outcome
        | some bytes =>
          rw [deep, Fragment.read_of_found null List.not_mem_nil found] at outcome
          exact ⟨levels, bytes, f, rfl, rfl, outcome, rfl⟩

/-- The track that its events are read as after they are encoded, when calls take the ticks that
these uploads give. -/
def replayed (u : Uploads) (limits : Limits) (track : Track) : Track :=
  if track.empty then .silent
  else match Track.playFrom (Fragment.call u limits (limits.depth - 1) []) limits.ticks 0 {}
      track.events with
    | .ok heard => .ofEvents heard.1
    | .error _ => .silent

theorem idle_call (u : Uploads) (limits : Limits) (levels : Nat) (callers : List UInt16) :
    Playback.Idle (Fragment.call u limits levels callers) := fun _ _ _ => rfl

/-- Calls take as many ticks where their fragments are the same and none of them is a caller. -/
theorem agree_call (bank : v.bank = u.bank) {levels : Nat} {callers callers' : List UInt16}
    {word : UInt16} {bytes : List UInt8} (found : u.from? word = some bytes)
    (same : ∀ x, u.LeadsTo word x → v.from? x = u.from? x ∧ (x ∈ callers' → x ∈ callers)) :
    Playback.Agree (Fragment.call u limits levels callers) (Fragment.call v limits levels callers')
      (Token.lex bytes) := by
  intro c listed called repeated left t n taken
  have leads : ∀ x, u.Reaches c.target x → u.LeadsTo word x :=
    fun x reached => ⟨bytes, c, found, listed, called, repeated, reached⟩
  rw [Fragment.call_congr bank fun x reached => (same x (leads x reached)).1]
  exact Fragment.outcome_call_of_reads (fun _ => Fragment.outcome_read_of_callers
    fun x reached member => (same x (leads x reached)).2 member) taken

/-- What playing a track again comes to, whatever else is uploaded. -/
theorem replays {word : UInt16} {track : Track} (read : (u.track limits word).outcome = .ok track)
    (filled : track.empty = false)
    (timely : ∀ bytes, u.from? word = some bytes → Timely {} {} (Token.lex bytes)) :
    ∃ levels bytes total tail, limits.depth = levels + 1 ∧ u.from? word = some bytes ∧
      u.replayed limits track = .ofEvents (track.events ++ tail) ∧
      Playback.Replays (Fragment.call u limits levels [word]) limits.ticks 0 {} (Token.lex bytes)
        track.events tail total := by
  rcases track_ok read with rfl | ⟨levels, bytes, f, deep, found, ran, rfl⟩
  · simp [Track.silent] at filled
  · obtain ⟨heard, tail, same, replays⟩ := Playback.playFrom_of_run
      (idle_call u limits levels [word]) (fun token member => Token.proper_lexFrom token member)
      (timely bytes found) ran
    have events : f.track.events = heard := by simp [same, Track.ofEvents]
    have again := replays.2 (Fragment.call u limits levels []) (idle_call u limits levels [])
      (agree_call rfl found fun x _ => ⟨rfl, by simp⟩)
    refine ⟨levels, bytes, f.ticks, tail, deep, found, ?_, ?_⟩
    · rw [replayed, filled, deep, Nat.add_sub_cancel, events, again]
      rfl
    · rw [events]
      exact replays

/-- A track that was read is read again, as it was, from its encoding, where the fragments that its
calls lead to are the same and do not include its new place. -/
theorem track_reread (bank : v.bank = u.bank) {word address : UInt16} {track : Track}
    {own behind : List UInt8} (read : (u.track limits word).outcome = .ok track)
    (filled : track.empty = false)
    (timely : ∀ bytes, u.from? word = some bytes → Timely {} {} (Token.lex bytes))
    (same : ∀ x, u.LeadsTo word x → v.from? x = u.from? x ∧ x ≠ address)
    (nonzero : address ≠ 0) (encoded : track.bytes? = .ok own)
    (there : v.from? address = some (own ++ behind)) :
    (v.track limits address).outcome = .ok (u.replayed limits track) := by
  obtain ⟨encodable, bytes⟩ := Track.bytes?_eq_ok encoded
  obtain ⟨levels, old, total, tail, deep, found, result, replays⟩ := replays read filled timely
  have again := replays.2 (Fragment.call v limits levels [address])
    (idle_call v limits levels [address]) (agree_call bank found fun x leads =>
      ⟨(same x leads).1, fun member => absurd (List.mem_singleton.mp member) (same x leads).2⟩)
  have tokens : Token.lex (own ++ behind) = Track.tokensFrom {} track.events := by
    rw [Token.lex, ← bytes, Track.lexFrom_encodeFrom encodable]
  rw [Uploads.track, Report.outcome_map, fragment, deep,
    Fragment.read_of_found nonzero List.not_mem_nil there, tokens,
    Playback.run_tokensFrom (p := { timing := {} }) encodable rfl rfl, again, result]
  simp [Except.map]

/-- Such a track expands to the same events. -/
theorem expansion_replayed (bank : v.bank = u.bank) {word : UInt16} {track : Track}
    (read : (u.track limits word).outcome = .ok track)
    (timely : ∀ bytes, u.from? word = some bytes → Timely {} {} (Token.lex bytes))
    (same : ∀ x, u.LeadsTo word x → v.from? x = u.from? x) (levels : Nat) :
    v.expansion limits levels (u.replayed limits track) = u.expansion limits levels track := by
  cases filled : track.empty with
  | true => simp [expansion, replayed, filled, Track.silent]
  | false =>
    obtain ⟨-, bytes, -, tail, -, found, result, shape, -⟩ := replays read filled timely
    have callees : ∀ target repeats, .call target repeats ∈ track.events → repeats ≠ 0 →
        ∀ t, v.callee limits levels target t = u.callee limits levels target t := by
      intro target repeats heard repeated t
      refine callee_congr bank levels (fun x reached => same x ?_) t
      rcases track_ok read with rfl | ⟨_, bytes', f, _, found', ran, rfl⟩
      · simp [Track.silent] at filled
      · rcases Playback.calls_of_run ran heard with before | ⟨c, listed, called, rfl, rfl⟩
        · simp at before
        · exact ⟨bytes', c, found', listed, called, repeated, reached⟩
    have ended : expandWith (v.callee limits levels) {} (track.events ++ tail) =
        expandWith (v.callee limits levels) {} track.events := by
      rcases shape with rfl | rfl
      · rw [List.append_nil]
      · exact expandWith_append_finish _ _ _
    rw [expansion, expansion, result, filled, Track.ofEvents]
    simp only [Bool.false_eq_true, if_false]
    rw [ended]
    exact expandWith_congr callees

end Uploads
end SnesMusic
