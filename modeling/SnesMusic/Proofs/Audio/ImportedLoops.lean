import SnesMusic.Proofs.Audio.LeastError
import SnesMusic.Proofs.Soundtrack.Saving
import SnesMusic.Soundtrack.Edit

/-!
# Loops of imported samples

A sample keeps its loop twice: as a mark on its blocks, which the sound chip obeys, and as the place
from which the loop address is computed when the sample is saved. The encoder moves a loop that
begins behind all blocks to the last one, but the place is not moved with it. Main statement: the
two agree for just those sounds whose loop begins within a block, and the address that is saved for
them is that of a block with the loop mark (`loop_ofWave`).
-/
namespace SnesMusic

open LittleEndian

/-- The loop that is kept is the one that is heard. -/
def Sample.LoopHeard (sample : Sample) : Prop :=
  (Brr.decode sample.encoded).loopStart = if sample.loops then some sample.loopPoint else none

/-- The loop, if there is one, begins in a block, be it in the silence that fills the last one. -/
def Wave.LoopInside (wave : Wave) : Prop :=
  ∀ start, wave.loopStart = some start →
    start.toNat < Brr.blockSamples * Brr.blockCount wave.samples.length

theorem Wave.exists_start_of_not_loopInside {wave : Wave} (late : ¬ wave.LoopInside) :
    ∃ start, wave.loopStart = some start ∧
      Brr.blockSamples * Brr.blockCount wave.samples.length ≤ start.toNat := by
  simpa only [LoopInside, not_forall, Nat.not_lt, exists_prop] using late

namespace Brr

/-- Without blocks no loop is heard. -/
theorem loopStart_encode_nil (loopStart : Option Nat) :
    (decode (encode [] loopStart)).loopStart = none := by
  rw [decode, untilLast_blocks_encode]
  rfl

/-- The loop that is heard begins with a block that has the loop mark. -/
theorem exists_block_of_loopStart {data : List UInt8} {start : Nat}
    (heard : (decode data).loopStart = some start) :
    ∃ block, (untilLast (blocks data))[start / blockSamples]? = some block ∧
      block.header.loop = true := by
  obtain ⟨index, found, rfl⟩ := Option.map_eq_some_iff.mp heard
  obtain ⟨inside, marked, _⟩ := List.findIdx?_eq_some_iff_getElem.mp found
  rw [Nat.mul_div_cancel _ (by decide)]
  exact ⟨_, List.getElem?_eq_getElem inside, marked⟩

/-- All blocks of encoded samples are heard. -/
theorem untilLast_blocks_encode_self (pcm : List Int16) (loopStart : Option Nat) :
    untilLast (blocks (encode pcm loopStart)) = blocks (encode pcm loopStart) := by
  rw [untilLast_blocks_encode, encode, blocks_encodeBlocks]

theorem length_blocks_encode (pcm : List Int16) (loopStart : Option Nat) :
    (blocks (encode pcm loopStart)).length = blockCount pcm.length := by
  rw [encode, blocks_encodeBlocks, length_encodedBlocks]

end Brr

namespace Sample

variable (name : String) (wave : Wave)

/-- A loop is heard as it is kept just when it begins in a block. -/
theorem loopHeard_ofWave : (ofWave name wave).LoopHeard ↔ wave.LoopInside := by
  obtain ⟨rate, samples, loopStart⟩ := wave
  have size : Brr.blockSamples = 16 := rfl
  rw [LoopHeard, Wave.LoopInside, ofWave]
  cases loopStart with
  | none =>
    by_cases silent : samples = []
    · subst silent
      simp [Brr.loopStart_encode_nil]
    · simp [Brr.loopStart_encode silent]
  | some start =>
    by_cases silent : samples = []
    · subst silent
      simp [Brr.loopStart_encode_nil, Brr.blockCount, size]
    · have positive := Brr.blockCount_pos silent
      simp only [Option.map_some, Brr.loopStart_encode silent, Option.isSome_some, if_true,
        Option.getD_some, Option.some.injEq, forall_eq', size]
      omega

end Sample

namespace Saving

/-- The loop address of a sample stands in the sample directory when the sample has been saved. -/
theorem loopAddress_saveSample {sample : Sample} {slot : Slot} {number : Nat} {s : Saving}
    (ok : (saveSample ({ sample, slot := some slot, modified := true }, number) s).outcome = .ok ()) :
    (saveSample ({ sample, slot := some slot, modified := true }, number) s).image.readWord
      (slot.directory + 2) = .ok (loopAddress slot sample) := by
  simp only [saveSample, Bool.not_true, Bool.false_eq_true, if_false] at ok ⊢
  obtain ⟨_, loop⟩ := andThen_ok ok
  rw [loop] at ok ⊢
  exact Image.readWord_of_has_bytes (Image.has_of_tryWrite ok)

/-- A sample is saved when its place and its directory entry lie within the image. -/
theorem outcome_saveSample {sample : Sample} {slot : Slot} {number : Nat} {s : Saving}
    (filled : s.image.size ≠ 0) (place : slot.offset + sample.encoded.length ≤ s.image.size)
    (directory : slot.directory + 4 ≤ s.image.size) :
    (saveSample ({ sample, slot := some slot, modified := true }, number) s).outcome = .ok () := by
  have data := Image.outcome_tryWrite place filled
  have size := (Image.frame_tryWrite s.image slot.offset sample.encoded).size
  simp only [saveSample, Bool.not_true, Bool.false_eq_true, if_false, andThen, write, data]
  refine Image.outcome_tryWrite ?_ (size ▸ filled)
  rw [size, length_bytes]
  omega

end Saving

/-- The loop of a sample that is made from sound is heard where it is kept just when it begins in a
block. Then the address that is saved for it is that of a block of the written data with the loop
mark; otherwise it lies behind the data. -/
theorem Sample.loop_ofWave (name : String) (wave : Wave) :
    let sample := Sample.ofWave name wave
    (sample.LoopHeard ↔ wave.LoopInside) ∧
      (sample.loops = true → ∀ (slot : Slot) (number : Nat) (s : Saving),
        let saved := Saving.saveSample ({ sample, slot := some slot, modified := true }, number) s
        saved.outcome = .ok () →
        ∃ index, saved.image.readWord (slot.directory + 2) =
            .ok (slot.address + UInt16.ofNat (index * Brr.blockSize)) ∧
          (wave.LoopInside → (index + 1) * Brr.blockSize ≤ sample.encoded.length ∧
            ∃ block, (Brr.blocks sample.encoded)[index]? = some block ∧
              block.header.loop = true) ∧
          (¬ wave.LoopInside → sample.encoded.length ≤ index * Brr.blockSize)) := by
  intro sample
  have size : sample.encoded.length = Brr.blockSize * Brr.blockCount wave.samples.length :=
    Brr.length_encode ..
  refine ⟨loopHeard_ofWave name wave, ?_⟩
  intro loops slot number s saved ok
  refine ⟨sample.loopPoint / Brr.blockSamples, ?_, fun inside => ?_, fun late => ?_⟩
  · have word := Saving.loopAddress_saveSample ok
    rw [Saving.loopAddress, loops, if_pos rfl] at word
    exact word
  · have heard : sample.LoopHeard := (loopHeard_ofWave name wave).mpr inside
    rw [LoopHeard, loops, if_pos rfl] at heard
    obtain ⟨block, stands, marked⟩ := Brr.exists_block_of_loopStart heard
    have all : Brr.untilLast (Brr.blocks sample.encoded) = Brr.blocks sample.encoded :=
      Brr.untilLast_blocks_encode_self ..
    have count : (Brr.blocks sample.encoded).length = Brr.blockCount wave.samples.length :=
      Brr.length_blocks_encode ..
    rw [all] at stands
    obtain ⟨below, -⟩ := List.getElem?_eq_some_iff.mp stands
    rw [count] at below
    refine ⟨?_, block, stands, marked⟩
    rw [size, Nat.mul_comm]
    exact Nat.mul_le_mul_left _ below
  · obtain ⟨start, declared, behind⟩ := Wave.exists_start_of_not_loopInside late
    have point : sample.loopPoint = start.toNat / Brr.blockSamples * Brr.blockSamples := by
      rw [show sample = ofWave name wave from rfl, ofWave, declared]
      rfl
    rw [size, point, Nat.mul_div_cancel _ (by decide), Nat.mul_comm]
    refine Nat.mul_le_mul_right _ ?_
    rw [Nat.le_div_iff_mul_le (by decide), Nat.mul_comm]
    exact behind

/-! ### A ramp -/

/-- A ramp of 40 samples, which take three blocks. -/
def ramp (start : UInt32) : Wave :=
  { rate := playbackRate
    samples := (List.range 40).map fun i => Int16.ofNat (300 * i)
    loopStart := some start }

def rampSample (start : UInt32) : Sample := .ofWave "Ramp" (ramp start)

def rampSlot : Slot := { directory := 0, offset := 4, address := 0x4000, capacity := 27 }

/-- The ramp is saved to a small image. -/
def rampSaved (start : UInt32) : Saving :=
  Saving.saveSample ({ sample := rampSample start, slot := some rampSlot, modified := true }, 0)
    { soundtrack := {}, image := { data := Array.replicate 32 0 } }

theorem length_ramp (start : UInt32) : (ramp start).samples.length = 40 := by
  rw [ramp, List.length_map, List.length_range]

theorem length_rampSample (start : UInt32) : (rampSample start).encoded.length = 27 := by
  rw [rampSample, Sample.ofWave, Brr.length_encode, length_ramp]
  decide

theorem saves_ramp (start : UInt32) : (rampSaved start).outcome = .ok () := by
  refine Saving.outcome_saveSample (by decide) ?_ (by decide)
  rw [length_rampSample]
  decide

/-- A loop that begins with the second block of the ramp is saved with the address of a block with
the loop mark; one that begins behind the ramp with an address behind the three blocks, the last of
which has the loop mark. -/
theorem loop_ofWave_ramp :
    (rampSample 16).LoopHeard ∧ (rampSaved 16).outcome = .ok () ∧
      (∃ index block, (Brr.blocks (rampSample 16).encoded)[index]? = some block ∧
        block.header.loop = true ∧
        (rampSaved 16).image.readWord 2 = .ok (0x4000 + UInt16.ofNat (index * Brr.blockSize))) ∧
      ¬ (rampSample 1000).LoopHeard ∧ (rampSample 1000).loopPoint = 992 ∧
      (Brr.decode (rampSample 1000).encoded).loopStart = some 32 ∧
      (rampSaved 1000).outcome = .ok () ∧
      ∃ index, (rampSample 1000).encoded.length ≤ index * Brr.blockSize ∧
        (rampSaved 1000).image.readWord 2 =
          .ok (0x4000 + UInt16.ofNat (index * Brr.blockSize)) := by
  have inside : (ramp 16).LoopInside := by
    intro start declared
    obtain rfl := Option.some.inj declared
    rw [length_ramp]
    decide
  have late : ¬ (ramp 1000).LoopInside := by
    intro within
    have below := within 1000 rfl
    rw [length_ramp] at below
    exact absurd below (by decide)
  have filled : (ramp 1000).samples ≠ [] := List.ne_nil_of_length_eq_add_one (length_ramp 1000)
  have heard : (Brr.decode (rampSample 1000).encoded).loopStart = some 32 := by
    rw [rampSample, Sample.ofWave, Brr.loopStart_encode filled, length_ramp]
    decide
  obtain ⟨early, saves⟩ := Sample.loop_ofWave "Ramp" (ramp 16)
  obtain ⟨index, word, marks, -⟩ := saves rfl rampSlot 0 _ (saves_ramp 16)
  obtain ⟨-, block, stands, marked⟩ := marks inside
  obtain ⟨tardy, savesLate⟩ := Sample.loop_ofWave "Ramp" (ramp 1000)
  obtain ⟨beyond, wordLate, -, outside⟩ := savesLate rfl rampSlot 0 _ (saves_ramp 1000)
  exact ⟨early.mpr inside, saves_ramp 16, ⟨index, block, stands, marked, word⟩, tardy.not.mpr late,
    rfl, heard, saves_ramp 1000, beyond, outside late, wordLate⟩

end SnesMusic
