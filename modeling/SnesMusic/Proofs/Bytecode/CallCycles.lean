import Mathlib.Algebra.BigOperators.Intervals
import Mathlib.Algebra.Order.BigOperators.Group.Finset
import SnesMusic.Proofs.Bytecode.Calls
import SnesMusic.Proofs.Bytecode.TrackReading
import SnesMusic.Proofs.Upload

/-!
# Cycles of calls

Fragments that begin by calling one another in a circle have no end. Each call passes an equal share
of its ticks on to the repetitions, and a fragment without ticks is not looked into, so a circle is
noticed where the ticks last until it closes or until the calls nest too deep. Main statements: a
track in such a circle is malformed (`malformed_track`), and for fragments that hold nothing but
their call the ticks are what decides (`malformed_track_iff`).
-/
namespace SnesMusic

open LittleEndian

/-- The outcome is a failure that concerns the bytecode. -/
def Report.IsMalformed {α : Type} (r : Report α) : Prop :=
  ∃ e, r.outcome = .error e ∧ e.errorClass = .malformed

/-- Fragments each of which begins with a repeated call of the next one, in a circle. -/
structure CallCycle (u : Uploads) where
  length : Nat
  address : Nat → UInt16
  repeats : Nat → UInt8
  positive : 0 < length
  closed : ∀ i, address (i + length) = address i
  nonzero : ∀ i, address i ≠ 0
  repeated : ∀ i, repeats i ≠ 0
  begins : ∀ i, ∃ rest, u.from? (address i) =
    some (callOpcode :: lowByte (address (i + 1)) :: highByte (address (i + 1)) ::
      repeats i :: rest)

/-! ### One call -/

/-- A fragment that begins with a call. -/
theorem Token.lex_call (target : UInt16) (repeats : UInt8) (rest : List UInt8) :
    Token.lex (callOpcode :: lowByte target :: highByte target :: repeats :: rest) =
      .command { opcode := callOpcode, first := lowByte target, second := highByte target,
                 third := repeats } :: Token.lexFrom [] 4 rest :=
  Event.lexFrom_encode (t := {}) (e := .call target repeats) rfl (by simp) 0 rest

namespace Fragment

variable {u : Uploads} {limits : Limits} {levels : Nat} {callers : List UInt16}
  {address target : UInt16} {repeats : UInt8} {budget : Nat} {timing : Timing}
  {rest : List UInt8}

/-- A fragment that is being read already is refused, and so is one beyond the last level. -/
theorem isMalformed_read_of_mem (nonzero : address ≠ 0) (busy : levels = 0 ∨ address ∈ callers) :
    (read u limits levels callers address budget timing).IsMalformed := by
  rw [read.eq_def, if_neg nonzero]
  by_cases circular : address ∈ callers
  · rw [if_pos circular]
    exact ⟨_, rfl, rfl⟩
  · rw [if_neg circular, busy.resolve_right circular]
    exact ⟨_, rfl, rfl⟩

/-- The first token of a fragment that begins with a call and has ticks left. -/
theorem read_of_call (nonzero : address ≠ 0) (fresh : address ∉ callers)
    (found : u.from? address =
      some (callOpcode :: lowByte target :: highByte target :: repeats :: rest))
    (left : 0 < budget) :
    let called := call u limits levels (address :: callers) target repeats budget timing
    let p : Playback := { timing, notices := called.notices.reverse }
    read u limits (levels + 1) callers address budget timing =
      match called.outcome with
      | .error e => p.fail e
      | .ok ticks =>
        Playback.run (call u limits levels (address :: callers)) address budget
          (({ p with ticks := addTicks 0 ticks } : Playback).push (.call target repeats))
          (Token.lexFrom [] 4 rest) := by
  have open' : ¬ budget ≤ 0 := by omega
  have aim : word (lowByte target) (highByte target) = target := word_bytes target
  have begun : read u limits (levels + 1) callers address budget timing = _ :=
    read_of_found nonzero fresh found
  rw [Token.lex_call, Playback.run, if_neg open'] at begun
  simp only [Command.isCall, Command.target, Command.repeats, Event.ofCommand, beq_self_eq_true,
    if_true, aim, Nat.sub_zero, List.append_nil] at begun
  exact begun

/-- Nothing of a fragment is looked at without ticks. -/
theorem outcome_read_of_spent {bytes : List UInt8} (nonzero : address ≠ 0)
    (fresh : address ∉ callers) (found : u.from? address = some bytes) :
    (read u limits (levels + 1) callers address 0 timing).outcome =
      .ok { track := .ofEvents [], ticks := 0 } := by
  rw [read_of_found nonzero fresh found]
  cases Token.lex bytes with
  | nil => rfl
  | cons token rest =>
    unfold Playback.run
    rw [if_pos le_rfl]
    rfl

/-- A fragment whose first call leads to malformed bytecode is malformed. -/
theorem isMalformed_read_of_call (nonzero : address ≠ 0)
    (found : u.from? address =
      some (callOpcode :: lowByte target :: highByte target :: repeats :: rest))
    (left : 0 < budget) (repeated : repeats ≠ 0)
    (failed : (read u limits levels (address :: callers) target (budget / repeats.toNat)
      timing).IsMalformed) :
    (read u limits (levels + 1) callers address budget timing).IsMalformed := by
  by_cases circular : address ∈ callers
  · exact isMalformed_read_of_mem nonzero (.inr circular)
  · obtain ⟨e, outcome, malformed⟩ := failed
    have called : (call u limits levels (address :: callers) target repeats budget
        timing).outcome = .error e := by
      rw [call, if_neg repeated, callTicks, outcome]
      cases e with
      | addressNotFound missing bank => simp [MusicError.errorClass] at malformed
      | _ => rfl
    rw [read_of_call nonzero circular found left]
    simp only [called]
    exact ⟨e, rfl, malformed⟩

end Fragment

namespace CallCycle

variable {u : Uploads} (cycle : CallCycle u)

/-- How often the calls of some fragments in a row play the one that the last of them calls. -/
def plays (i count : Nat) : Nat := ∏ j ∈ Finset.range count, (cycle.repeats (i + j)).toNat

theorem plays_succ (i count : Nat) :
    cycle.plays i (count + 1) = (cycle.repeats i).toNat * cycle.plays (i + 1) count := by
  rw [plays, plays, Finset.prod_range_succ', Nat.mul_comm, Nat.add_zero]
  simp only [Nat.add_assoc, Nat.add_comm 1]

theorem toNat_repeats_pos (i : Nat) : 0 < (cycle.repeats i).toNat :=
  Nat.pos_of_ne_zero fun zero => cycle.repeated i (UInt8.toNat.inj zero)

theorem plays_mono (i : Nat) {count more : Nat} (le : count ≤ more) :
    cycle.plays i count ≤ cycle.plays i more :=
  Finset.prod_le_prod_of_subset_of_one_le' (Finset.range_subset_range.mpr le)
    fun j _ _ => cycle.toNat_repeats_pos (i + j)

/-- Ticks that are enough for some calls leave enough for those behind the first of them. -/
theorem plays_le_div_iff {i count budget : Nat} :
    cycle.plays (i + 1) count ≤ budget / (cycle.repeats i).toNat ↔
      cycle.plays i (count + 1) ≤ budget := by
  rw [plays_succ, Nat.mul_comm, Nat.le_div_iff_mul_le (cycle.toNat_repeats_pos i)]

/-! ### Cycles are noticed -/

/-- A fragment of the cycle is malformed when the ticks last to where it closes or to the deepest
level: `count` calls further, with ticks left for all of them but the last. -/
theorem isMalformed_read {limits : Limits} (count : Nat) {i levels budget : Nat}
    {callers : List UInt16} {timing : Timing}
    (stops : levels ≤ count ∨ cycle.address (i + count) ∈ callers)
    (ample : ∀ m < count, cycle.plays i m ≤ budget) :
    (Fragment.read u limits levels callers (cycle.address i) budget timing).IsMalformed := by
  induction count generalizing i levels budget callers timing with
  | zero =>
    apply Fragment.isMalformed_read_of_mem (cycle.nonzero i)
    rcases stops with deepest | circular
    · exact .inl (Nat.le_zero.mp deepest)
    · exact .inr circular
  | succ count ih =>
    cases levels with
    | zero => exact Fragment.isMalformed_read_of_mem (cycle.nonzero i) (.inl rfl)
    | succ levels =>
      obtain ⟨rest, found⟩ := cycle.begins i
      have left : 0 < budget := ample 0 (Nat.succ_pos count)
      refine Fragment.isMalformed_read_of_call (cycle.nonzero i) found left (cycle.repeated i)
        (ih ?_ ?_)
      · rcases stops with deepest | circular
        · exact .inl (Nat.le_of_succ_le_succ deepest)
        · refine .inr (List.mem_cons_of_mem _ ?_)
          rwa [Nat.add_right_comm, Nat.add_assoc]
      · intro m below
        exact cycle.plays_le_div_iff.mpr (ample (m + 1) (Nat.succ_lt_succ below))

/-- The first fragment is a caller of all others: the cycle closes when it is called again. -/
theorem isMalformed_fragment {limits : Limits} (levels : 0 < limits.depth) (i : Nat)
    (ample : cycle.plays i (min cycle.length limits.depth - 1) ≤ limits.ticks) :
    (u.fragment limits (cycle.address i)).IsMalformed := by
  have positive := cycle.positive
  obtain ⟨rest, found⟩ := cycle.begins i
  have left : 0 < limits.ticks := (cycle.plays_mono i (Nat.zero_le _)).trans ample
  rw [Uploads.fragment, ← Nat.sub_add_cancel levels]
  refine Fragment.isMalformed_read_of_call (cycle.nonzero i) found left (cycle.repeated i)
    (cycle.isMalformed_read (min cycle.length limits.depth - 1) ?_ ?_)
  · by_cases deep : limits.depth ≤ cycle.length
    · exact .inl (by omega)
    · have around : i + 1 + (min cycle.length limits.depth - 1) = i + cycle.length := by omega
      rw [around, cycle.closed]
      exact .inr List.mem_cons_self
  · intro m below
    exact cycle.plays_le_div_iff.mpr ((cycle.plays_mono i below).trans ample)

/-! ### Cycles that use up the ticks -/

/-- The fragments are distinct, and each ends after its call. -/
structure Bare : Prop where
  apart : ∀ i n, 0 < n → n < cycle.length → cycle.address i ≠ cycle.address (i + n)
  ends : ∀ i, ∃ rest, u.from? (cycle.address i) =
    some (callOpcode :: lowByte (cycle.address (i + 1)) :: highByte (cycle.address (i + 1)) ::
      cycle.repeats i :: 0 :: rest)

variable {cycle}

/-- A fragment of a bare cycle takes no ticks when those it is given run out on the way. -/
theorem Bare.outcome_read (bare : cycle.Bare) {limits : Limits} {count i levels budget : Nat}
    {callers : List UInt16} {timing : Timing} (room : count < levels)
    (short : count < cycle.length) (fresh : ∀ j ≤ count, cycle.address (i + j) ∉ callers)
    (spent : budget < cycle.plays i count) :
    ∃ track, (Fragment.read u limits levels callers (cycle.address i) budget timing).outcome =
      .ok { track, ticks := 0 } := by
  induction count generalizing i levels budget callers timing with
  | zero =>
    obtain ⟨rest, found⟩ := bare.ends i
    obtain rfl : budget = 0 := Nat.lt_one_iff.mp spent
    obtain ⟨levels, rfl⟩ := Nat.exists_eq_add_of_lt room
    rw [Nat.zero_add]
    exact ⟨_, Fragment.outcome_read_of_spent (cycle.nonzero i) (fresh 0 le_rfl) found⟩
  | succ count ih =>
    obtain ⟨rest, found⟩ := bare.ends i
    obtain ⟨levels, rfl⟩ : ∃ l, levels = l + 1 := ⟨levels - 1, by omega⟩
    rcases Nat.eq_zero_or_pos budget with rfl | left
    · exact ⟨_, Fragment.outcome_read_of_spent (cycle.nonzero i) (fresh 0 (Nat.zero_le _)) found⟩
    · have inner : ∃ track, (Fragment.read u limits levels (cycle.address i :: callers)
          (cycle.address (i + 1)) (budget / (cycle.repeats i).toNat) timing).outcome =
            .ok { track, ticks := 0 } := by
        apply ih (Nat.lt_of_succ_lt_succ room) (Nat.lt_of_succ_lt short)
        · intro j inside
          rw [Nat.add_assoc, Nat.add_comm 1, List.mem_cons, not_or]
          exact ⟨(bare.apart i (j + 1) (Nat.succ_pos j) (by omega)).symm,
            fresh (j + 1) (Nat.succ_le_succ inside)⟩
        · exact Nat.lt_of_not_le (mt cycle.plays_le_div_iff.mp (Nat.not_le.mpr spent))
      obtain ⟨track, outcome⟩ := inner
      have called : (Fragment.call u limits levels (cycle.address i :: callers)
          (cycle.address (i + 1)) (cycle.repeats i) budget timing).outcome = .ok 0 := by
        rw [Fragment.call, if_neg (cycle.repeated i), Fragment.outcome_callTicks_of_ok outcome,
          repeatTicks, Nat.zero_mul, Nat.zero_min]
      refine ⟨Track.ofEvents [.call (cycle.address (i + 1)) (cycle.repeats i), .finish], ?_⟩
      have open' : ¬ budget ≤ 0 := by omega
      rw [Fragment.read_of_call (cycle.nonzero i) (fresh 0 (Nat.zero_le _)) found left]
      simp only [called]
      rw [Token.lexFrom_cons, Token.read_zero, Playback.run]
      simp only [Playback.push, addTicks, Nat.add_zero, Nat.zero_min, open', if_false]
      rfl

/-! ### Tracks of an image -/

/-- Only the fragment's reading counts for a track. -/
theorem isMalformed_track_iff (limits : Limits) (address : UInt16) :
    (u.track limits address).IsMalformed ↔ (u.fragment limits address).IsMalformed := by
  rw [Report.IsMalformed, Uploads.track, Report.outcome_map]
  cases outcome : (u.fragment limits address).outcome with
  | error e => simp [Report.IsMalformed, outcome, Except.map]
  | ok fragment => simp [Report.IsMalformed, outcome, Except.map]

/-- An image with a cycle is loaded. -/
theorem image_track {image : Image} {bank : UploadBank}
    (cycle : CallCycle (Uploads.ofImage image bank)) (limits : Limits) (address : UInt16) :
    (image.track bank limits address).outcome =
      ((Uploads.ofImage image bank).track limits address).outcome := by
  obtain ⟨rest, found⟩ := cycle.begins 0
  rw [Image.track, Image.uploads, if_pos (Uploads.isLoaded_of_from? found), Report.outcome_bind]
  rfl

/-- Reading a track at any address of a cycle fails with an error about the bytecode, as long as
the calls that come before the one it is noticed at leave ticks for that one. -/
theorem malformed_track {image : Image} {bank : UploadBank}
    (cycle : CallCycle (Uploads.ofImage image bank)) {limits : Limits} (levels : 0 < limits.depth)
    (i : Nat) (ample : cycle.plays i (min cycle.length limits.depth - 1) ≤ limits.ticks) :
    (image.track bank limits (cycle.address i)).IsMalformed := by
  rw [Report.IsMalformed, cycle.image_track, ← Report.IsMalformed, isMalformed_track_iff]
  exact cycle.isMalformed_fragment levels i ample

/-- A bare cycle is malformed precisely when the ticks last to where it is noticed. -/
theorem Bare.malformed_track_iff {image : Image} {bank : UploadBank}
    {cycle : CallCycle (Uploads.ofImage image bank)} (bare : cycle.Bare) {limits : Limits}
    (levels : 0 < limits.depth) (i : Nat) :
    (image.track bank limits (cycle.address i)).IsMalformed ↔
      cycle.plays i (min cycle.length limits.depth - 1) ≤ limits.ticks := by
  refine ⟨fun malformed => ?_, cycle.malformed_track levels i⟩
  by_contra spent
  have positive := cycle.positive
  have noticed : min cycle.length limits.depth - 1 < limits.depth := by omega
  obtain ⟨track, outcome⟩ : ∃ track,
      ((Uploads.ofImage image bank).fragment limits (cycle.address i)).outcome =
        .ok { track, ticks := 0 } :=
    bare.outcome_read noticed (by omega) (by simp) (Nat.lt_of_not_le spent)
  rw [Report.IsMalformed, cycle.image_track, ← Report.IsMalformed,
    isMalformed_track_iff] at malformed
  obtain ⟨e, failed, -⟩ := malformed
  rw [outcome] at failed
  exact absurd failed (by simp)

end CallCycle

/-! ### A circle of three -/

/-- Three fragments that call one another so many times. -/
def circleBlock (repeats : UInt8) : SingleBlock :=
  { bank := .dungeon
    address := 0xD000
    payload := [
      callOpcode, 0x05, 0xD0, repeats, 0,
      callOpcode, 0x0A, 0xD0, repeats, 0,
      callOpcode, 0x00, 0xD0, repeats, 0] }

def circleImage (repeats : UInt8) : Image := Image.ofBlocks [circleBlock repeats]

/-- The addresses of the three fragments in turn. -/
def circleAddress (i : Nat) : UInt16 :=
  match i % 3 with
  | 0 => 0xD000
  | 1 => 0xD005
  | _ => 0xD00A

theorem uploads_circleImage (repeats : UInt8) :
    Uploads.ofImage (circleImage repeats) .dungeon =
      { bank := .dungeon, blocks := [(circleBlock repeats).placed] } :=
  Image.uploads_ofBlocks
    (show (List.map SingleBlock.bank [circleBlock repeats]).Nodup from List.nodup_singleton _)
    (List.forall_mem_singleton.mpr ⟨by simp [circleBlock], by simp [circleBlock]⟩) .dungeon

theorem from?_circle (repeats : UInt8) (i : Nat) :
    ∃ rest, (Uploads.ofImage (circleImage repeats) .dungeon).from? (circleAddress i) =
      some (callOpcode :: lowByte (circleAddress (i + 1)) :: highByte (circleAddress (i + 1)) ::
        repeats :: 0 :: rest) := by
  rw [uploads_circleImage, circleAddress, circleAddress, Nat.add_mod]
  match i % 3, Nat.mod_lt i (show 0 < 3 by decide) with
  | 0, _ => exact ⟨_, rfl⟩
  | 1, _ => exact ⟨_, rfl⟩
  | 2, _ => exact ⟨_, rfl⟩

/-- The circle of three. -/
def circle (repeats : UInt8) (repeated : repeats ≠ 0) :
    CallCycle (Uploads.ofImage (circleImage repeats) .dungeon) where
  length := 3
  address := circleAddress
  repeats := fun _ => repeats
  positive := by decide
  closed := fun i => by rw [circleAddress, circleAddress, Nat.add_mod_right]
  nonzero := fun i => by
    rw [circleAddress]
    split <;> decide
  repeated := fun _ => repeated
  begins := fun i => by
    obtain ⟨rest, found⟩ := from?_circle repeats i
    exact ⟨0 :: rest, found⟩

theorem bare_circle (repeats : UInt8) (repeated : repeats ≠ 0) :
    (circle repeats repeated).Bare where
  apart := by
    intro i n positive short
    have small : n = 1 ∨ n = 2 := by
      have below : n < 3 := short
      omega
    simp only [circle, circleAddress, Nat.add_mod i n]
    match i % 3, Nat.mod_lt i (show 0 < 3 by decide) with
    | 0, _ => rcases small with rfl | rfl <;> decide
    | 1, _ => rcases small with rfl | rfl <;> decide
    | 2, _ => rcases small with rfl | rfl <;> decide
  ends := from?_circle repeats

/-- Played twice each, the fragments are noticed to be a circle. -/
theorem malformed_track_circle :
    let cycle := circle 2 (by decide)
    0 < ({} : Limits).depth ∧
      cycle.plays 1 (min cycle.length ({} : Limits).depth - 1) ≤ ({} : Limits).ticks ∧
      ((circleImage 2).track .dungeon {} (cycle.address 1)).IsMalformed :=
  ⟨by decide, by decide,
    (circle 2 (by decide)).malformed_track (by decide) 1 (by decide)⟩

/-- Played 255 times each, they use up the ticks before the circle closes: it is not always
malformed. -/
theorem not_malformed_of_cycle :
    ¬ ∀ (image : Image) (bank : UploadBank) (cycle : CallCycle (Uploads.ofImage image bank))
        (depth : Nat), 0 < depth → ∀ i,
          (image.track bank { depth } (cycle.address i)).IsMalformed := by
  intro always
  have malformed := always (circleImage 255) .dungeon (circle 255 (by decide)) 100 (by decide) 0
  have ample := ((bare_circle 255 (by decide)).malformed_track_iff (by decide) 0).mp malformed
  exact absurd ample (by decide)

end SnesMusic
