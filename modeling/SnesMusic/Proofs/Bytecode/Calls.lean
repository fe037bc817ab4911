import SnesMusic.Bytecode.Fragment

/-!
# Subroutine calls

What the reading of a fragment depends on. Main statements: nothing is looked at but the fragments
that its calls lead to (`read_congr`), and a reading that succeeds does so for other callers too, as
long as its calls lead to none of them (`outcome_read_of_callers`).
-/
namespace SnesMusic

/-! ### Reachable fragments -/

/-- The fragments that playing one may come to: the fragment itself and those that its repeated
calls lead to. -/
inductive Uploads.Reaches (u : Uploads) : UInt16 → UInt16 → Prop where
  | refl (address : UInt16) : Reaches u address address
  | call {address target : UInt16} {bytes : List UInt8} {c : Command}
      (found : u.from? address = some bytes) (listed : Token.command c ∈ Token.lex bytes)
      (called : c.isCall = true) (repeated : c.repeats ≠ 0)
      (further : Reaches u c.target target) : Reaches u address target

/-! ### Playback -/

namespace Playback

variable {call call' : UInt16 → UInt8 → Nat → Timing → Report Nat} {origin : UInt16} {budget : Nat}

/-- Two ways to play calls are alike for the calls of the tokens. -/
theorem run_congr {p : Playback} {tokens : List Token}
    (same : ∀ c, .command c ∈ tokens → c.isCall = true → ∀ left t,
      call' c.target c.repeats left t = call c.target c.repeats left t) :
    run call' origin budget p tokens = run call origin budget p tokens := by
  induction tokens generalizing p with
  | nil => rw [run, run]
  | cons token rest ih =>
    have later := fun p => ih (p := p) fun c member => same c (List.mem_cons_of_mem _ member)
    cases token with
    | finish => rw [run, run]
    | truncated opcode => rw [run, run]
    | timing duration velocity => rw [run, run, later]
    | note pitch => rw [run, run, later]
    | unknown index byte => rw [run, run, later]
    | command c =>
      rw [run, run]
      cases called : c.isCall with
      | false => simp only [Bool.false_eq_true, if_false, later]
      | true => simp only [if_true, same c (List.mem_cons_self ..) called, later]

/-- Playbacks that differ in their notices only. -/
structure Alike (p q : Playback) : Prop where
  timing : q.timing = p.timing
  emitted : q.emitted = p.emitted
  ticks : q.ticks = p.ticks
  events : q.events = p.events

theorem Alike.outcome_done {p q : Playback} (alike : Alike p q) :
    q.done.outcome = p.done.outcome := by
  simp only [done, alike.events, alike.ticks]

theorem Alike.push {p q : Playback} (alike : Alike p q) (e : Event) : Alike (p.push e) (q.push e) :=
  ⟨alike.timing, alike.emitted, alike.ticks, congrArg (e :: ·) alike.events⟩

theorem Alike.setTiming {p q : Playback} (alike : Alike p q) (duration : UInt8)
    (velocity : Option UInt8) :
    Alike (p.setTiming duration velocity) (q.setTiming duration velocity) :=
  ⟨by simp only [Playback.setTiming, alike.timing], alike.emitted, alike.ticks, alike.events⟩

theorem Alike.note {p q : Playback} (alike : Alike p q) (pitch : UInt8) :
    Alike (p.note pitch) (q.note pitch) := by
  constructor <;>
    simp only [Playback.note, alike.timing, alike.emitted, alike.ticks, alike.events]

theorem Alike.skip {p q : Playback} (alike : Alike p q) (origin : UInt16) (index : Nat)
    (byte : UInt8) : Alike (p.skip origin index byte) (q.skip origin index byte) :=
  ⟨alike.timing, alike.emitted, alike.ticks, alike.events⟩

/-- The playback after a call, which took some ticks and gave some notices. -/
def called (p : Playback) (ticks : Nat) (notices : List Notice) (e : Event) : Playback :=
  { p with ticks := addTicks p.ticks ticks, events := e :: p.events, notices }

theorem Alike.called {p q : Playback} (alike : Alike p q) (ticks : Nat)
    (notices notices' : List Notice) (e : Event) :
    Alike (p.called ticks notices e) (q.called ticks notices' e) := by
  constructor <;>
    simp only [Playback.called, alike.timing, alike.emitted, alike.ticks, alike.events]

/-- A playback that succeeds does so too where every call that takes ticks takes as many. -/
theorem outcome_run_of_calls {p q : Playback} {tokens : List Token} {f : Fragment}
    (alike : Alike p q)
    (agree : ∀ c, .command c ∈ tokens → c.isCall = true → ∀ left t n,
      (call c.target c.repeats left t).outcome = .ok n →
        (call' c.target c.repeats left t).outcome = .ok n)
    (played : (run call origin budget p tokens).outcome = .ok f) :
    (run call' origin budget q tokens).outcome = .ok f := by
  induction tokens generalizing p q with
  | nil =>
    unfold run at played ⊢
    rw [alike.outcome_done, played]
  | cons token rest ih =>
    have later := fun p q alike => ih (p := p) (q := q) alike
      fun c member => agree c (List.mem_cons_of_mem _ member)
    by_cases late : budget ≤ p.ticks
    · have late' : budget ≤ q.ticks := alike.ticks ▸ late
      cases token <;> (rw [run, if_pos late] at played; rw [run, if_pos late', alike.outcome_done,
        played])
    · have open' : ¬budget ≤ q.ticks := alike.ticks ▸ late
      cases token with
      | finish =>
        rw [run, if_neg late] at played
        rw [run, if_neg open', (alike.push .finish).outcome_done, played]
      | truncated opcode =>
        rw [run, if_neg late] at played
        simp [fail] at played
      | timing duration velocity =>
        rw [run, if_neg late] at played
        rw [run, if_neg open']
        exact later _ _ (alike.setTiming duration velocity) played
      | note pitch =>
        rw [run, if_neg late] at played
        rw [run, if_neg open']
        exact later _ _ (alike.note pitch) played
      | unknown index byte =>
        rw [run, if_neg late] at played
        rw [run, if_neg open']
        exact later _ _ (alike.skip origin index byte) played
      | command c =>
        rw [run, if_neg late] at played
        rw [run, if_neg open']
        cases called : c.isCall with
        | false =>
          simp only [called, Bool.false_eq_true, if_false] at played ⊢
          exact later _ _ (alike.push _) played
        | true =>
          simp only [called, if_true] at played ⊢
          cases outcome : (call c.target c.repeats (budget - p.ticks) p.timing).outcome with
          | error e => simp [outcome, fail] at played
          | ok ticks =>
            have same := agree c (List.mem_cons_self ..) called _ _ _ outcome
            rw [← alike.ticks, ← alike.timing] at same
            simp only [outcome] at played
            simp only [same]
            exact later _ _ (alike.called ticks _ _ _) played

/-- A failure comes from a truncated command or from a call. -/
theorem outcome_run_ne {p : Playback} {tokens : List Token} {e : MusicError}
    (calls : ∀ target repeats left t, (call target repeats left t).outcome ≠ .error e)
    (truncated : ∀ opcode, e ≠ .malformed (.truncatedCommand opcode origin)) :
    (run call origin budget p tokens).outcome ≠ .error e := by
  induction tokens generalizing p with
  | nil =>
    unfold run
    simp [done]
  | cons token rest ih =>
    cases token with
    | finish =>
      unfold run
      split <;> simp [done]
    | truncated opcode =>
      unfold run
      split
      · simp [done]
      · intro failed
        simp only [fail, Except.error.injEq] at failed
        exact truncated opcode failed.symm
    | timing duration velocity =>
      unfold run
      split
      · simp [done]
      · exact ih
    | note pitch =>
      unfold run
      split
      · simp [done]
      · exact ih
    | unknown index byte =>
      unfold run
      split
      · simp [done]
      · exact ih
    | command c =>
      rw [run]
      split
      · simp [done]
      · cases called : c.isCall with
        | false =>
          simp only [Bool.false_eq_true, if_false]
          exact ih
        | true =>
          simp only [if_true]
          cases outcome : (call c.target c.repeats (budget - p.ticks) p.timing).outcome with
          | error e' =>
            intro failed
            simp only [fail, Except.error.injEq] at failed
            rw [failed] at outcome
            exact calls c.target c.repeats (budget - p.ticks) p.timing outcome
          | ok ticks => exact ih

end Playback

/-! ### Readings -/

namespace Fragment

variable {u v : Uploads} {limits : Limits}

/-- How the calls of a fragment are played when `levels` more may nest. -/
def call (u : Uploads) (limits : Limits) (levels : Nat) (callers : List UInt16)
    (target : UInt16) (repeats : UInt8) (left : Nat) (timing : Timing) : Report Nat :=
  if repeats = 0 then .ok 0
  else callTicks repeats (read u limits levels callers target (left / repeats.toNat) timing)

/-- The equation of a fragment that is found. -/
theorem read_of_found {levels : Nat} {callers : List UInt16} {address : UInt16} {budget : Nat}
    {timing : Timing} {bytes : List UInt8} (nonzero : address ≠ 0) (fresh : address ∉ callers)
    (found : u.from? address = some bytes) :
    read u limits (levels + 1) callers address budget timing =
      Playback.run (call u limits levels (address :: callers)) address budget { timing }
        (Token.lex bytes) := by
  rw [read, if_neg nonzero, if_neg fresh]
  simp only [Uploads.require, found]
  rfl

/-- Reading a fragment looks at no uploads but those that its calls lead to. -/
theorem read_congr (bank : v.bank = u.bank) {levels : Nat} {callers : List UInt16}
    {address : UInt16} {budget : Nat} {timing : Timing}
    (same : ∀ target, u.Reaches address target → v.from? target = u.from? target) :
    read v limits levels callers address budget timing =
      read u limits levels callers address budget timing := by
  induction levels generalizing callers address budget timing with
  | zero => rw [read.eq_def, read.eq_def]
  | succ levels ih =>
    rw [read.eq_def, read.eq_def u]
    by_cases null : address = 0
    · rw [if_pos null, if_pos null]
    · rw [if_neg null, if_neg null]
      by_cases circular : address ∈ callers
      · rw [if_pos circular, if_pos circular]
      · rw [if_neg circular, if_neg circular]
        have required : v.require address = u.require address := by
          rw [Uploads.require, Uploads.require, same address (.refl _), Uploads.notFound,
            Uploads.notFound, bank]
        simp only [required]
        cases found : u.from? address with
        | none => simp only [Uploads.require, found]
        | some bytes =>
          simp only [Uploads.require, found]
          apply Playback.run_congr
          intro c listed called left t
          by_cases repeated : c.repeats = 0
          · simp only [repeated, if_true]
          · simp only [repeated, if_false]
            rw [ih fun target reached => same target (.call found listed called repeated reached)]

/-- A call takes the ticks of its target, or none where the target is not found. -/
theorem outcome_callTicks_of_ok {repeats : UInt8} {r : Report Fragment} {f : Fragment}
    (read : r.outcome = .ok f) :
    (callTicks repeats r).outcome = .ok (repeatTicks f.ticks repeats) := by
  rw [callTicks, read]

theorem outcome_callTicks_of_missing {repeats : UInt8} {r : Report Fragment} {address : UInt16}
    {bank : UploadBank} (missing : r.outcome = .error (.addressNotFound address bank)) :
    (callTicks repeats r).outcome = .ok 0 := by
  rw [callTicks, missing]

/-- A call never fails for want of its target. -/
theorem outcome_callTicks_ne (repeats : UInt8) (r : Report Fragment) (address : UInt16)
    (bank : UploadBank) :
    (callTicks repeats r).outcome ≠ .error (.addressNotFound address bank) := by
  unfold callTicks
  split
  · simp
  · simp
  · rename_i e other outcome
    simp only [ne_eq, Except.error.injEq]
    exact other address bank

theorem callTicks_ok {repeats : UInt8} {r : Report Fragment} {n : Nat}
    (ok : (callTicks repeats r).outcome = .ok n) :
    (∃ f, r.outcome = .ok f) ∨
      ∃ address bank, r.outcome = .error (.addressNotFound address bank) := by
  unfold callTicks at ok
  split at ok
  · rename_i f outcome
    exact Or.inl ⟨f, outcome⟩
  · rename_i address bank outcome
    exact Or.inr ⟨address, bank, outcome⟩
  · simp at ok

theorem outcome_call_ne (levels : Nat) (callers : List UInt16) (target : UInt16) (repeats : UInt8)
    (left : Nat) (timing : Timing) (address : UInt16) (bank : UploadBank) :
    (call u limits levels callers target repeats left timing).outcome ≠
      .error (.addressNotFound address bank) := by
  unfold call
  split
  · simp
  · exact outcome_callTicks_ne _ _ _ _

/-- A call takes the ticks that it took where its target is read as it was. -/
theorem outcome_call_of_reads {levels : Nat} {callers callers' : List UInt16} {target : UInt16}
    {repeats : UInt8} {left : Nat} {timing : Timing} {n : Nat}
    (reads : repeats ≠ 0 →
      (∀ f, (read u limits levels callers target (left / repeats.toNat) timing).outcome = .ok f →
        (read u limits levels callers' target (left / repeats.toNat) timing).outcome = .ok f) ∧
      (∀ missing bank, (read u limits levels callers target (left / repeats.toNat) timing).outcome =
          .error (.addressNotFound missing bank) →
        (read u limits levels callers' target (left / repeats.toNat) timing).outcome =
          .error (.addressNotFound missing bank)))
    (taken : (call u limits levels callers target repeats left timing).outcome = .ok n) :
    (call u limits levels callers' target repeats left timing).outcome = .ok n := by
  unfold call at taken ⊢
  by_cases repeated : repeats = 0
  · rw [if_pos repeated] at taken ⊢
    exact taken
  · rw [if_neg repeated] at taken ⊢
    rcases callTicks_ok taken with ⟨f, read⟩ | ⟨missing, bank, read⟩
    · rw [outcome_callTicks_of_ok read] at taken
      rw [outcome_callTicks_of_ok ((reads repeated).1 f read), taken]
    · rw [outcome_callTicks_of_missing read] at taken
      rw [outcome_callTicks_of_missing ((reads repeated).2 missing bank read), taken]

/-- A reading that finds its fragments finds them for other callers too, unless they are among
those that it leads to. -/
theorem outcome_read_of_callers {levels : Nat} {callers callers' : List UInt16} {address : UInt16}
    {budget : Nat} {timing : Timing}
    (sub : ∀ target, u.Reaches address target → target ∈ callers' → target ∈ callers) :
    (∀ f, (read u limits levels callers address budget timing).outcome = .ok f →
      (read u limits levels callers' address budget timing).outcome = .ok f) ∧
    (∀ missing bank, (read u limits levels callers address budget timing).outcome =
        .error (.addressNotFound missing bank) →
      (read u limits levels callers' address budget timing).outcome =
        .error (.addressNotFound missing bank)) := by
  induction levels generalizing callers callers' address budget timing with
  | zero =>
    rw [read.eq_def, read.eq_def u limits 0 callers']
    by_cases null : address = 0
    · rw [if_pos null, if_pos null]
      exact ⟨fun _ read => read, fun _ _ read => read⟩
    · rw [if_neg null, if_neg null]
      by_cases circular : address ∈ callers
      · rw [if_pos circular]
        exact ⟨fun _ read => by simp at read, fun _ _ read => by simp at read⟩
      · rw [if_neg circular]
        exact ⟨fun _ read => by simp at read, fun _ _ read => by simp at read⟩
  | succ levels ih =>
    by_cases null : address = 0
    · rw [read.eq_def, read.eq_def u limits (levels + 1) callers', if_pos null, if_pos null]
      exact ⟨fun _ read => read, fun _ _ read => read⟩
    · by_cases circular : address ∈ callers
      · rw [read.eq_def, if_neg null, if_pos circular]
        exact ⟨fun _ read => by simp at read, fun _ _ read => by simp at read⟩
      · have fresh : address ∉ callers' := fun member => circular (sub address (.refl _) member)
        cases found : u.from? address with
        | none =>
          rw [read.eq_def, read.eq_def u limits (levels + 1) callers', if_neg null, if_neg circular,
            if_neg null, if_neg fresh]
          simp only [Uploads.require, found]
          exact ⟨fun _ read => read, fun _ _ read => read⟩
        | some bytes =>
          rw [read_of_found null circular found, read_of_found null fresh found]
          constructor
          · intro f played
            refine Playback.outcome_run_of_calls ⟨rfl, rfl, rfl, rfl⟩ ?_ played
            intro c listed called left t n taken
            refine outcome_call_of_reads (fun repeated => ih ?_) taken
            intro target reached member
            rcases List.mem_cons.mp member with here | later
            · exact List.mem_cons.mpr (Or.inl here)
            · exact List.mem_cons_of_mem _
                (sub target (.call found listed called repeated reached) later)
          · intro missing bank failed
            exact absurd failed (Playback.outcome_run_ne
              (fun _ _ _ _ => outcome_call_ne _ _ _ _ _ _ _ _) (by simp))

theorem call_congr (bank : v.bank = u.bank) {levels : Nat} {callers : List UInt16} {target : UInt16}
    {repeats : UInt8} {left : Nat} {timing : Timing}
    (same : ∀ x, u.Reaches target x → v.from? x = u.from? x) :
    call v limits levels callers target repeats left timing =
      call u limits levels callers target repeats left timing := by
  rw [call, call, read_congr bank same]

end Fragment
end SnesMusic
