import SnesMusic.Proofs.Bytecode.Playing

/-!
# Playing with effects

A playback in a monad: its calls may have effects, and so may the sums and differences of ticks.
Main statement: where these come to the values of plain ticks and calls, the playback comes to what
it is without effects (`runIn_yields`).
-/
namespace SnesMusic

/-- How ticks are added to those that have passed, and how those that are left are found. -/
structure Reckoning (m : Type → Type) where
  plus : Nat → Nat → m Nat
  minus : Nat → Nat → m Nat

/-- Ticks reckoned without effects. -/
def Reckoning.plain {m : Type → Type} [Monad m] : Reckoning m where
  plus a b := pure (addTicks a b)
  minus a b := pure (a - b)

/-- That an effect comes to a value, whatever else it does; sequences come to what their parts
do. -/
structure Outcomes (m : Type → Type) [Monad m] where
  Yields : {α : Type} → m α → α → Prop
  pure : ∀ {α : Type} (a : α), Yields (pure a) a
  bind : ∀ {α β : Type} {x : m α} {a : α} {f : α → m β} {b : β},
    Yields x a → Yields (f a) b → Yields (x >>= f) b

namespace Playback

/-- Plays tokens with effects. -/
def runIn {m : Type → Type} [Monad m] (reckon : Reckoning m)
    (call : UInt16 → UInt8 → Nat → Timing → m (Report Nat)) (origin : UInt16) (budget : Nat) :
    Playback → List Token → m (Report Fragment)
  | p, [] => pure p.done
  | p, token :: rest =>
    if budget ≤ p.ticks then pure p.done
    else match token with
      | .finish => pure (p.push .finish).done
      | .timing duration velocity =>
        runIn reckon call origin budget (p.setTiming duration velocity) rest
      | .note pitch => do
        let ticks ← reckon.plus p.ticks (Event.note (p.timing.note p.emitted pitch)).ticks
        runIn reckon call origin budget { p.note pitch with ticks } rest
      | .unknown index byte => runIn reckon call origin budget (p.skip origin index byte) rest
      | .truncated opcode => pure (p.fail (.malformed (.truncatedCommand opcode origin)))
      | .command c =>
        if c.isCall then do
          let left ← reckon.minus budget p.ticks
          let called ← call c.target c.repeats left p.timing
          let p := { p with notices := called.notices.reverse ++ p.notices }
          match called.outcome with
          | .error e => pure (p.fail e)
          | .ok spent => do
            let ticks ← reckon.plus p.ticks spent
            runIn reckon call origin budget ({ p with ticks }.push (.ofCommand c)) rest
        else runIn reckon call origin budget (p.push (.ofCommand c)) rest

variable {m : Type → Type} [Monad m] {reckon : Reckoning m} {origin : UInt16} {budget : Nat}
  {call : UInt16 → UInt8 → Nat → Timing → Report Nat}

/-- The effects of a playback come to plain values at every place that it passes. Such places share
an invariant, which each token keeps. -/
structure Accepts (outcomes : Outcomes m) (reckon : Reckoning m)
    (callIn : UInt16 → UInt8 → Nat → Timing → m (Report Nat))
    (call : UInt16 → UInt8 → Nat → Timing → Report Nat) (origin : UInt16) (budget : Nat)
    (Known : Token → Prop) (Inv : Playback → Prop) : Prop where
  keeps : ∀ {p q token}, Inv p → p.ticks < budget → Known token →
    Goes call origin budget p token q → Inv q
  note : ∀ {p}, Inv p → p.ticks < budget → ∀ pitch,
    let ticks := (Event.note (p.timing.note p.emitted pitch)).ticks
    outcomes.Yields (reckon.plus p.ticks ticks) (addTicks p.ticks ticks)
  left : ∀ {p}, Inv p → p.ticks < budget →
    outcomes.Yields (reckon.minus budget p.ticks) (budget - p.ticks)
  called : ∀ {p}, Inv p → p.ticks < budget → ∀ target repeats,
    let left := budget - p.ticks
    outcomes.Yields (callIn target repeats left p.timing) (call target repeats left p.timing) ∧
      ∀ ticks, (call target repeats left p.timing).outcome = .ok ticks →
        outcomes.Yields (reckon.plus p.ticks ticks) (addTicks p.ticks ticks)

theorem runIn_yields (outcomes : Outcomes m) (Known : Token → Prop) (Inv : Playback → Prop)
    {callIn : UInt16 → UInt8 → Nat → Timing → m (Report Nat)}
    (accepts : Accepts outcomes reckon callIn call origin budget Known Inv) {p : Playback}
    {tokens : List Token} (start : Inv p) (known : ∀ token ∈ tokens, Known token) :
    outcomes.Yields (runIn reckon callIn origin budget p tokens)
      (run call origin budget p tokens) := by
  induction tokens generalizing p with
  | nil =>
    rw [runIn, run]
    exact outcomes.pure _
  | cons token rest ih =>
    rw [List.forall_mem_cons] at known
    obtain ⟨here, later⟩ := known
    rcases Nat.lt_or_ge p.ticks budget with early | late
    · have going := Nat.not_le.mpr early
      -- What is next keeps the invariant, so the rest comes to what it is without effects.
      have onward : ∀ {q}, Goes call origin budget p token q →
          outcomes.Yields (runIn reckon callIn origin budget q rest)
            (run call origin budget q rest) :=
        fun goes => ih (accepts.keeps start early here goes) later
      cases token with
      | finish =>
        rw [runIn, run, if_neg going, if_neg going]
        exact outcomes.pure _
      | truncated opcode =>
        rw [runIn, run, if_neg going, if_neg going]
        exact outcomes.pure _
      | timing duration velocity =>
        rw [runIn, run, if_neg going, if_neg going]
        exact onward (.timing duration velocity)
      | unknown index byte =>
        rw [runIn, run, if_neg going, if_neg going]
        exact onward (.unknown index byte)
      | note pitch =>
        rw [runIn, run, if_neg going, if_neg going]
        exact outcomes.bind (accepts.note start early pitch) (onward (.note pitch))
      | command c =>
        rw [runIn, run, if_neg going, if_neg going]
        cases isCall : c.isCall with
        | false =>
          simp only [Bool.false_eq_true, if_false]
          exact onward (.command isCall)
        | true =>
          simp only [if_true]
          obtain ⟨played, sum⟩ := accepts.called start early c.target c.repeats
          refine outcomes.bind (accepts.left start early) (outcomes.bind played ?_)
          cases taken : (call c.target c.repeats (budget - p.ticks) p.timing).outcome with
          | error e => exact outcomes.pure _
          | ok ticks => exact outcomes.bind (sum ticks taken) (onward (.call isCall taken))
    · rw [run_of_budget_le late]
      cases token <;>
      · rw [runIn, if_pos late]
        exact outcomes.pure _

end Playback
end SnesMusic
