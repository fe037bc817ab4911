import Mathlib.Data.Finset.Card
import Mathlib.Order.Interval.Finset.Nat
import SnesMusic.Proofs.Bytecode.Effects
import SnesMusic.Proofs.Report
import SnesMusic.Proofs.Upload

/-!
# How deep calls nest

A fragment that is being read is not read again within itself, so the fragments that are being read
are distinct, and there are only so many addresses. Main statements: reading with a call stack ends
on its own, whatever the limit on the depth, gives what reading without one gives and leaves the
stack as it was (`readStacked_yields`), and what is read within some depth is read alike within any
larger one (`read_of_deeper`).
-/
namespace SnesMusic

/-! ### Larger limits -/

namespace Playback

variable {call call' : UInt16 → UInt8 → Nat → Timing → Report Nat} {origin : UInt16} {budget : Nat}
  {p q : Playback} {token : Token} {tokens rest : List Token} {f : Fragment}

/-- Calls that are played come to the same when they are played the other way. -/
def CallsAgree (call call' : UInt16 → UInt8 → Nat → Timing → Report Nat) : Prop :=
  ∀ target repeats left t n, (call target repeats left t).outcome = .ok n →
    call' target repeats left t = call target repeats left t

theorem Goes.of_calls (agree : CallsAgree call call') (goes : Goes call origin budget p token q) :
    Goes call' origin budget p token q := by
  cases goes with
  | timing duration velocity => exact .timing duration velocity
  | note pitch => exact .note pitch
  | unknown index byte => exact .unknown index byte
  | command plain => exact .command plain
  | call isCall taken =>
    have again := agree _ _ _ _ _ taken
    rw [← again] at taken ⊢
    exact .call isCall taken

theorem Plays.of_calls (agree : CallsAgree call call')
    (plays : Plays call origin budget p tokens q rest) :
    Plays call' origin budget p tokens q rest := by
  induction plays with
  | refl p tokens => exact .refl p tokens
  | step early goes further ih => exact .step early (goes.of_calls agree) ih

/-- A playback that succeeds comes to the same where the calls that it plays do. -/
theorem run_of_calls (agree : CallsAgree call call')
    (ran : (run call origin budget p tokens).outcome = .ok f) :
    run call' origin budget p tokens = run call origin budget p tokens := by
  obtain ⟨q, rest, plays, stops⟩ := run_ok ran
  rw [run_of_plays (plays.of_calls agree), run_of_plays plays]
  cases stops with
  | spent late => rw [run_of_budget_le late, run_of_budget_le late]
  | ended | marked => rw [run, run]

end Playback

namespace Fragment

variable {u : Uploads} {limits limits' : Limits} {levels levels' : Nat} {callers : List UInt16}
  {address : UInt16} {budget : Nat} {timing : Timing}

/-- A call that is played is played alike where a target that is read is read alike: one that is
not uploaded stays so, whatever levels and ticks there are. -/
theorem callTicks_of_reads {target : UInt16} {repeats : UInt8} {share share' n : Nat}
    (le : levels ≤ levels')
    (reads : ∀ f, (read u limits levels callers target share timing).outcome = .ok f →
      read u limits' levels' callers target share' timing =
        read u limits levels callers target share timing)
    (taken : (callTicks repeats (read u limits levels callers target share timing)).outcome =
      .ok n) :
    callTicks repeats (read u limits' levels' callers target share' timing) =
      callTicks repeats (read u limits levels callers target share timing) := by
  rcases callTicks_ok taken with ⟨f, found⟩ | ⟨missing, bank, gone⟩
  · rw [reads f found]
  · obtain ⟨lower, rfl, null, circular, absent⟩ := absent_of_read gone
    obtain ⟨upper, rfl⟩ : ∃ upper, levels' = upper + 1 := ⟨levels' - 1, by omega⟩
    rw [read_of_absent null circular absent, read_of_absent null circular absent]

/-- What is read within some depth is read alike within a larger one. -/
theorem read_of_deeper {f : Fragment} (le : levels ≤ levels')
    (found : (read u limits levels callers address budget timing).outcome = .ok f) :
    read u limits' levels' callers address budget timing =
      read u limits levels callers address budget timing := by
  induction levels generalizing levels' callers address budget timing f with
  | zero =>
    rcases read_ok found with ⟨rfl, -⟩ | ⟨rest, bytes, impossible, -⟩
    · rw [read.eq_def, read.eq_def u limits, if_pos rfl, if_pos rfl]
    · cases impossible
  | succ levels ih =>
    obtain ⟨further, rfl⟩ : ∃ further, levels' = further + 1 := ⟨levels' - 1, by omega⟩
    have le := Nat.le_of_succ_le_succ le
    rcases read_ok found with ⟨rfl, -⟩ | ⟨rest, bytes, here, null, circular, there, ran⟩
    · rw [read, read, if_pos rfl, if_pos rfl]
    · obtain rfl := Nat.succ.inj here
      rw [read_of_found null circular there, read_of_found null circular there]
      refine Playback.run_of_calls (fun target repeats left t n taken => ?_) ran
      unfold call at taken ⊢
      by_cases once : repeats = 0
      · rw [if_pos once, if_pos once]
      · rw [if_neg once] at taken ⊢
        rw [if_neg once]
        exact callTicks_of_reads le (fun _ => ih le) taken

end Fragment

/-! ### The call stack -/

/-- The fragments that are being read, the innermost first, and the stacks with which fragments
were begun, the latest first. -/
structure CallStack where
  active : List UInt16 := []
  begun : List (List UInt16) := []
  deriving DecidableEq, Repr

namespace CallStack

def enter (address : UInt16) (s : CallStack) : CallStack where
  active := address :: s.active
  begun := (address :: s.active) :: s.begun

def leave (s : CallStack) : CallStack := { s with active := s.active.tail }

/-- Fragments that may be read within one another: no two are the same, none is the empty track
and there are no more of them than the depth allows. -/
structure Sound (depth : Nat) (active : List UInt16) : Prop where
  distinct : active.Nodup
  nonzero : 0 ∉ active
  shallow : active.length ≤ depth

namespace Sound

variable {depth : Nat} {active : List UInt16} {address : UInt16}

theorem nil (depth : Nat) : Sound depth [] :=
  ⟨List.nodup_nil, List.not_mem_nil, Nat.zero_le _⟩

theorem cons (sound : Sound depth active) (nonzero : address ≠ 0) (fresh : address ∉ active)
    (room : active.length < depth) : Sound depth (address :: active) :=
  ⟨List.nodup_cons.mpr ⟨fresh, sound.distinct⟩,
    fun member => (List.mem_cons.mp member).elim (fun zero => nonzero zero.symm) sound.nonzero,
    room⟩

/-- There are no more fragments than addresses other than zero. -/
theorem length_le (sound : Sound depth active) : active.length ≤ min depth 65535 := by
  refine Nat.le_min.mpr ⟨sound.shallow, ?_⟩
  have distinct : (active.map UInt16.toNat).Nodup :=
    sound.distinct.map fun a b same => UInt16.toNat.inj same
  have within : (active.map UInt16.toNat).toFinset ⊆ Finset.Ico 1 65536 := by
    intro n member
    obtain ⟨a, listed, rfl⟩ := List.mem_map.mp (List.mem_toFinset.mp member)
    refine Finset.mem_Ico.mpr ⟨Nat.pos_of_ne_zero fun zero => ?_, a.toNat_lt⟩
    exact sound.nonzero ((UInt16.toNat.inj zero : a = 0) ▸ listed)
  have counted := Finset.card_le_card within
  rwa [List.toFinset_card_of_nodup distinct, List.length_map, Nat.card_Ico] at counted

end Sound

/-- An effect on the call stack comes to a value and leaves the fragments that are being read as
they were. Whatever it begins to read meanwhile, the stack is sound. -/
def Restores (depth : Nat) (active : List UInt16) {α : Type} (x : StateT CallStack Option α)
    (a : α) : Prop :=
  ∀ begun, ∃ new, x { active, begun } = some (a, { active, begun := new ++ begun }) ∧
    ∀ stack ∈ new, Sound depth stack

theorem Restores.pure (depth : Nat) (active : List UInt16) {α : Type} (a : α) :
    Restores depth active (pure a) a :=
  fun begun => ⟨[], rfl, fun _ member => by simp at member⟩

theorem Restores.bind {depth : Nat} {active : List UInt16} {α β : Type}
    {x : StateT CallStack Option α} {a : α} {f : α → StateT CallStack Option β} {b : β}
    (first : Restores depth active x a) (second : Restores depth active (f a) b) :
    Restores depth active (x >>= f) b := by
  intro begun
  obtain ⟨new, ran, sound⟩ := first begun
  obtain ⟨later, ran', sound'⟩ := second (new ++ begun)
  refine ⟨later ++ new, ?_, fun stack member => ?_⟩
  · change (x { active, begun }).bind (fun r => f r.1 r.2) = _
    rw [ran, List.append_assoc]
    exact ran'
  · exact (List.mem_append.mp member).elim (sound' stack) (sound stack)

theorem Restores.get {depth : Nat} {active : List UInt16} {α : Type}
    {f : CallStack → StateT CallStack Option α} {a : α}
    (next : ∀ begun, Restores depth active (f { active, begun }) a) :
    Restores depth active (MonadState.get >>= f) a :=
  fun begun => next begun begun

/-- What is done while a fragment is read. -/
theorem Restores.within {depth : Nat} {active : List UInt16} {address : UInt16} {α : Type}
    {x : StateT CallStack Option α} {a : α} (sound : Sound depth (address :: active))
    (inside : Restores depth (address :: active) x a) :
    Restores depth active
      (do
        modify (CallStack.enter address)
        let value ← x
        modify CallStack.leave
        Pure.pure value) a := by
  intro begun
  obtain ⟨new, ran, begunSound⟩ := inside ((address :: active) :: begun)
  refine ⟨new ++ [address :: active], ?_, fun stack member => ?_⟩
  · change (x { active := address :: active, begun := (address :: active) :: begun }).bind
      (fun r => some (r.1, r.2.leave)) = _
    rw [ran]
    simp [leave]
  · rcases List.mem_append.mp member with nested | here
    · exact begunSound stack nested
    · exact List.mem_singleton.mp here ▸ sound

/-- Effects that restore the call stack. -/
def restoring (depth : Nat) (active : List UInt16) : Outcomes (StateT CallStack Option) where
  Yields := Restores depth active
  pure := Restores.pure depth active
  bind := Restores.bind

end CallStack

namespace Uploads

/-- Reads the fragment at an address with a call stack. The number of fragments that may be begun
within one another is `room`; where it does not suffice there is no result. -/
def readStacked (u : Uploads) (limits : Limits) : (room : Nat) → (address : UInt16) →
    (budget : Nat) → Timing → StateT CallStack Option (Report Fragment)
  | 0, _, _, _ => failure
  | room + 1, address, budget, timing => do
    let stack ← get
    if address = 0 then pure (.ok { track := .silent, ticks := 0 })
    else if address ∈ stack.active then pure (.fail (.circularReference address))
    else if limits.depth ≤ stack.active.length then pure (.fail (.depthExceeded limits.depth))
    else match u.require address with
      | .error e => pure (.fail e)
      | .ok bytes => do
        modify (CallStack.enter address)
        let call (target : UInt16) (repeats : UInt8) (left : Nat) (timing : Timing) :
            StateT CallStack Option (Report Nat) :=
          if repeats = 0 then pure (.ok 0)
          else do
            let read ← readStacked u limits room target (left / repeats.toNat) timing
            pure (Fragment.callTicks repeats read)
        let read ← Playback.runIn .plain call address budget { timing } (Token.lex bytes)
        modify CallStack.leave
        pure read

variable {u : Uploads} {limits : Limits} {active : List UInt16}

open CallStack

/-- Reading with a call stack ends and comes to what reading with the callers comes to. -/
theorem readStacked_yields {room : Nat} (sound : Sound limits.depth active)
    (enough : min limits.depth 65535 < room + active.length) (address : UInt16) (budget : Nat)
    (timing : Timing) :
    Restores limits.depth active (u.readStacked limits room address budget timing)
      (Fragment.read u limits (limits.depth - active.length) active address budget timing) := by
  -- A fragment that is begun takes one place of the room and adds one to the stack, so that their
  -- sum stays beyond what a sound stack can hold.
  induction room generalizing active address budget timing with
  | zero => exact absurd sound.length_le (Nat.not_le.mpr (by simpa using enough))
  | succ room ih =>
    rw [readStacked, Fragment.read.eq_def]
    refine Restores.get fun begun => ?_
    by_cases null : address = 0
    · rw [if_pos null, if_pos null]
      exact .pure _ _ _
    rw [if_neg null, if_neg null]
    by_cases circular : address ∈ active
    · rw [if_pos circular, if_pos circular]
      exact .pure _ _ _
    rw [if_neg circular, if_neg circular]
    rcases Nat.lt_or_ge active.length limits.depth with shallow | deep
    · obtain ⟨levels, remaining⟩ : ∃ levels, limits.depth - active.length = levels + 1 :=
        ⟨limits.depth - active.length - 1, by omega⟩
      have next : levels = limits.depth - (address :: active).length := by
        rw [List.length_cons]
        omega
      rw [if_neg (Nat.not_le.mpr shallow), remaining]
      cases required : u.require address with
      | error e => exact .pure _ _ _
      | ok bytes =>
        have within := sound.cons null circular shallow
        have enough' : min limits.depth 65535 < room + (address :: active).length := by
          rw [List.length_cons]
          omega
        refine Restores.within within (Playback.runIn_yields (restoring _ _) (fun _ => True)
          (fun _ => True) ?_ trivial fun _ _ => trivial)
        exact {
          keeps := fun _ _ _ _ => trivial
          note := fun _ _ _ => .pure _ _ _
          left := fun _ _ => .pure _ _ _
          called := fun {p} _ _ target repeats => by
            refine ⟨?_, fun _ _ => .pure _ _ _⟩
            by_cases once : repeats = 0
            · simp only [if_pos once]
              exact .pure _ _ _
            · simp only [if_neg once, next]
              exact .bind (ih within enough' target _ _) (.pure _ _ _) }
    · have spent : limits.depth - active.length = 0 := Nat.sub_eq_zero_of_le deep
      rw [if_pos deep, spent]
      exact .pure _ _ _

end Uploads

namespace Image

open CallStack

/-- Reads a track from an image with a call stack. -/
def trackStacked (image : Image) (bank : UploadBank) (limits : Limits) (room : Nat)
    (address : UInt16) : StateT CallStack Option (Report Track) :=
  match image.uploads bank with
  | .error e => pure (.fail e)
  | .ok uploads => do
    let read ← uploads.readStacked limits room address limits.ticks {}
    pure (Fragment.track <$> read)

theorem trackStacked_yields (image : Image) (bank : UploadBank) {limits : Limits} {room : Nat}
    (enough : min limits.depth 65535 < room) (address : UInt16) :
    Restores limits.depth [] (image.trackStacked bank limits room address)
      (image.track bank limits address) := by
  unfold trackStacked track
  cases image.uploads bank with
  | error e => exact .pure _ _ _
  | ok uploads =>
    exact .bind (uploads.readStacked_yields (.nil _) enough address limits.ticks {}) (.pure _ _ _)

/-- A track that is read within some depth is read alike within any larger one. -/
theorem track_of_deeper {image : Image} {bank : UploadBank} {limits : Limits} {address : UInt16}
    {track : Track} (read : (image.track bank limits address).outcome = .ok track) {deeper : Nat}
    (le : limits.depth ≤ deeper) :
    image.track bank { limits with depth := deeper } address =
      image.track bank limits address := by
  obtain ⟨loaded, f, found, -⟩ := track_ok read
  have same : (Uploads.ofImage image bank).fragment { limits with depth := deeper } address =
      (Uploads.ofImage image bank).fragment limits address :=
    Fragment.read_of_deeper le found
  rw [track_of_isLoaded loaded, track_of_isLoaded loaded, same]

/-- Reading a track ends, whatever the limit on the depth. Each time a fragment is begun the call
stack is sound, and so it holds no more fragments than the depth allows and than there are
addresses; after each reading it is as it was, whether that failed or not. A track that is read
within some depth is read alike within any larger one. -/
theorem track_nests (image : Image) (bank : UploadBank) (limits : Limits) :
    (∀ active, Sound limits.depth active → ∀ room,
      min limits.depth 65535 < room + active.length → ∀ address budget timing begun, ∃ new,
        (Uploads.ofImage image bank).readStacked limits room address budget timing
            { active, begun } =
          some (Fragment.read (Uploads.ofImage image bank) limits (limits.depth - active.length)
            active address budget timing, { active, begun := new ++ begun }) ∧
        ∀ stack ∈ new, Sound limits.depth stack ∧ stack.length ≤ min limits.depth 65535) ∧
    (∀ room, min limits.depth 65535 < room → ∀ address, ∃ begun,
      image.trackStacked bank limits room address {} =
        some (image.track bank limits address, { begun }) ∧
      ∀ stack ∈ begun, Sound limits.depth stack ∧ stack.length ≤ min limits.depth 65535) ∧
    ∀ address deeper track, limits.depth ≤ deeper →
      (image.track bank limits address).outcome = .ok track →
        image.track bank { limits with depth := deeper } address =
          image.track bank limits address := by
  refine ⟨fun active sound room enough address budget timing begun => ?_,
    fun room enough address => ?_, fun address deeper track le read => track_of_deeper read le⟩
  · obtain ⟨new, ran, sounds⟩ :=
      (Uploads.ofImage image bank).readStacked_yields sound enough address budget timing begun
    exact ⟨new, ran, fun stack member => ⟨sounds stack member, (sounds stack member).length_le⟩⟩
  · obtain ⟨new, ran, sounds⟩ := image.trackStacked_yields bank enough address []
    rw [List.append_nil] at ran
    exact ⟨new, ran, fun stack member => ⟨sounds stack member, (sounds stack member).length_le⟩⟩

end Image

/-- A track that calls a fragment twice, which calls another. -/
def nestedBlock : SingleBlock := {
  bank := .dungeon
  address := 0xD000
  payload := [
    0xEF, 0x07, 0xD0, 0x02, 0x24, 0xA4, 0x00,
    0xEF, 0x0C, 0xD0, 0x01, 0x00,
    0x24, 0xA4, 0x00] }

/-- What is read of it. -/
def nestedTrack : Track := .ofEvents [
  .call 0xD007 2,
  .note { pitch := 0xA4, duration := 0x24, timed := true },
  .finish]

theorem uploads_nestedBlock :
    Uploads.ofImage (Image.ofBlocks [nestedBlock]) .dungeon =
      { bank := .dungeon, blocks := [nestedBlock.placed] } :=
  Image.uploads_ofBlocks (by decide) (by decide) .dungeon

theorem nested_track_nests :
    let image := Image.ofBlocks [nestedBlock]
    CallStack.Sound 3 [0xD000] ∧ min 3 65535 < 3 + [0xD000].length ∧
      (∃ new,
        (Uploads.ofImage image .dungeon).readStacked { depth := 3 } 3 0xD007 100 {}
            { active := [0xD000] } =
          some (Fragment.read (Uploads.ofImage image .dungeon) { depth := 3 } 2 [0xD000] 0xD007 100
            {}, { active := [0xD000], begun := new ++ [] }) ∧
        ∀ stack ∈ new, CallStack.Sound 3 stack ∧ stack.length ≤ min 3 65535) ∧
      min 3 65535 < 4 ∧
      (∃ begun,
        image.trackStacked .dungeon { depth := 3 } 4 0xD000 {} =
          some (image.track .dungeon { depth := 3 } 0xD000, { begun }) ∧
        ∀ stack ∈ begun, CallStack.Sound 3 stack ∧ stack.length ≤ min 3 65535) ∧
      (image.track .dungeon { depth := 3 } 0xD000).outcome = .ok nestedTrack ∧
      image.track .dungeon { depth := 1000000 } 0xD000 =
        image.track .dungeon { depth := 3 } 0xD000 := by
  have sound : CallStack.Sound 3 [0xD000] := ⟨by decide, by decide, by decide⟩
  have read : ((Image.ofBlocks [nestedBlock]).track .dungeon { depth := 3 } 0xD000).outcome =
      .ok nestedTrack := by
    rw [Image.track_of_isLoaded (Image.isLoaded_ofBlocks _), uploads_nestedBlock]
    exact Report.ok_of_toOption (by decide +kernel)
  obtain ⟨stacked, whole, deeper⟩ :=
    Image.track_nests (Image.ofBlocks [nestedBlock]) .dungeon { depth := 3 }
  exact ⟨sound, by decide, stacked [0xD000] sound 3 (by decide) 0xD007 100 {} [], by decide,
    whole 4 (by decide) 0xD000, read, deeper 0xD000 1000000 nestedTrack (by decide) read⟩

end SnesMusic
