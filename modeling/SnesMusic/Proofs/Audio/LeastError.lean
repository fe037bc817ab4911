import Mathlib.Algebra.Order.Floor.Div
import Mathlib.Order.Bounds.Basic
import Mathlib.Tactic
import SnesMusic.Proofs.Audio.Encoder

/-!
# The encoder against the decoder

The encoder keeps its own account of what the decoder will hear. Here that account is checked
against the decoder itself: the bytes written are as many as the samples need, they decode to whole
blocks, and each block comes as close to the samples as any setting does that starts from what was
heard before it. The coarsest scale without prediction is never further off than 4095 for a sample,
which bounds the error of every block. Main statement: `decode_encode`.
-/
namespace SnesMusic.Brr

/-! ### What was heard before -/

/-- The history in front of the sample at an index: the two samples heard before it, silence where
there are none. -/
def historyAt (heard : List Int) (index : Nat) : History :=
  { last := (0 :: 0 :: heard).getD (index + 1) 0, older := (0 :: 0 :: heard).getD index 0 }

/-- Only the last two samples are remembered. -/
theorem foldl_push_take {heard : List Int} {index : Nat} (inside : index ≤ heard.length) :
    (heard.take index).foldl History.push {} = historyAt heard index := by
  induction index with
  | zero => rfl
  | succ index ih =>
    have here : index < heard.length := inside
    rw [List.take_succ_eq_append_getElem here, List.foldl_append, ih (Nat.le_of_lt here)]
    simp [historyAt, History.push, here]

/-! ### The coarsest scale -/

/-- A nibble on the coarsest scale, without prediction, misses no sample by more than 4095. -/
theorem coarse_miss {sample : Int} (fits : IsSample sample) :
    -4095 ≤ sample - reconstruct maxShift 0 (quantize maxShift 0 sample) ∧
      sample - reconstruct maxShift 0 (quantize maxShift 0 sample) ≤ 4095 := by
  obtain ⟨lower, upper⟩ := fits
  have size : step maxShift = 4096 := rfl
  simp only [reconstruct, scale, clamp, quantize, size, le_refl, if_true]
  omega

theorem trial_coarse_error_le {samples : List Int} (fit : ∀ sample ∈ samples, IsSample sample)
    (history : History) :
    (trial samples history maxShift 0).error ≤ samples.length * 4095 ^ 2 := by
  show (tryNibbles maxShift 0 history samples).2.1 ≤ samples.length * 4095 ^ 2
  induction samples generalizing history with
  | nil => simp [tryNibbles]
  | cons sample rest ih =>
    obtain ⟨lower, upper⟩ := coarse_miss (fit sample List.mem_cons_self)
    have first := sq_le_sq' lower upper
    have others := ih (fun s member => fit s (List.mem_cons_of_mem _ member))
      (history.push (reconstruct maxShift 0 (quantize maxShift 0 sample)))
    rw [sq] at first
    calc (tryNibbles maxShift 0 history (sample :: rest)).2.1
        ≤ 4095 ^ 2 + rest.length * 4095 ^ 2 := add_le_add first others
      _ = (sample :: rest).length * 4095 ^ 2 := by
        rw [List.length_cons, Nat.cast_succ]
        ring

theorem isSample_of_mem_paddedChunk {samples : List Int}
    (fit : ∀ sample ∈ samples, IsSample sample) :
    ∀ sample ∈ paddedChunk samples, IsSample sample := by
  intro sample member
  rcases List.mem_append.mp member with wanted | silence
  · exact fit sample (List.mem_of_mem_take wanted)
  · rw [List.eq_of_mem_replicate silence]
    decide

/-! ### The least error -/

/-- The errors of all settings for samples behind a history. -/
def settingErrors (samples : List Int) (history : History) : Set Int :=
  { error | ∃ shift ≤ maxShift, ∃ filter < 4, error = (trial samples history shift filter).error }

/-- What the chosen trial decodes to misses the samples by the least error of all settings. -/
theorem isLeast_bestTrial (samples : List Int) (history : History) :
    let best := bestTrial samples history
    IsLeast (settingErrors samples history)
      (squaredError samples (decodeNibbles best.shift best.filter history best.nibbles).1) := by
  intro best
  have hears : best.Hears samples history := hears_bestTrial samples history
  rw [← hears.error]
  refine ⟨?_, ?_⟩
  · obtain ⟨shift, small, filter, known, same⟩ := exists_bestTrial_eq samples history
    exact ⟨shift, small, filter, known, congrArg Trial.error same⟩
  · rintro error ⟨shift, small, filter, known, rfl⟩
    exact bestTrial_error_le small known samples history

/-- So the least error of a block is bounded. -/
theorem squaredError_bestTrial_le {samples : List Int} (fit : ∀ sample ∈ samples, IsSample sample)
    (history : History) :
    let best := bestTrial samples history
    squaredError samples (decodeNibbles best.shift best.filter history best.nibbles).1 ≤
      samples.length * 4095 ^ 2 :=
  ((isLeast_bestTrial samples history).2 ⟨maxShift, le_rfl, 0, by decide, rfl⟩).trans
    (trial_coarse_error_le fit history)

/-! ### The stream -/

theorem length_encodedBlocks (loopBlock : Option Nat) (index : Nat) (history : History)
    (samples : List Int) (left : Nat) :
    (encodedBlocks loopBlock index history samples left).length = left := by
  induction left generalizing index history samples with
  | zero => rfl
  | succ left ih => exact congrArg (· + 1) (ih ..)

theorem length_encodeBlocks (loopBlock : Option Nat) (index : Nat) (history : History)
    (samples : List Int) (left : Nat) :
    (encodeBlocks loopBlock index history samples left).length = blockSize * left := by
  induction left generalizing index history samples with
  | zero => rfl
  | succ left ih =>
    have hears := hears_bestTrial (paddedChunk samples) history
    have even := hears.length.trans (length_paddedChunk samples)
    have size : (pack (bestTrial (paddedChunk samples) history).nibbles).length = 8 :=
      (nibbles_pack even hears.fit).2
    rw [encodeBlocks, ← paddedChunk]
    simp only [List.length_append, List.length_cons, size, ih, blockSize]
    omega

/-- The end is marked on the last block. -/
theorem findIdx?_last_encodedBlocks (loopBlock : Option Nat) (index : Nat) (history : History)
    (samples : List Int) (left : Nat) :
    (encodedBlocks loopBlock index history samples (left + 1)).findIdx? (·.header.last) =
      some left := by
  induction left generalizing index history samples with
  | zero => rfl
  | succ left ih =>
    rw [encodedBlocks, List.findIdx?_cons, ih]
    rfl

/-- The decoder and the encoder's account of it stay together over a block. -/
theorem decodeBlocks_encodedBlocks_succ (loopBlock : Option Nat) (index : Nat) (history : History)
    (samples : List Int) (left : Nat) :
    let best := bestTrial (paddedChunk samples) history
    let first := (decodeNibbles best.shift best.filter history best.nibbles).1
    decodeBlocks history (encodedBlocks loopBlock index history samples (left + 1)) =
        first ++ decodeBlocks best.history
          (encodedBlocks loopBlock (index + 1) best.history (samples.drop blockSamples) left) ∧
      first.length = blockSamples ∧ best.history = first.foldl History.push history := by
  intro best first
  have hears : best.Hears (paddedChunk samples) history := hears_bestTrial ..
  have whole := length_paddedChunk samples
  have decoded := hears.decode_block whole (loopBlock.any (· ≤ index)) (left == 0)
  refine ⟨?_, ?_, ?_⟩
  · rw [encodedBlocks, decodeBlocks, decoded, hears.after]
  · rw [length_decodeNibbles, hears.length, whole]
  · rw [hears.after, decodeNibbles_history]

/-- A block of the stream is heard as the best trial decodes behind what was heard before it. -/
theorem heard_encodedBlocks (loopBlock : Option Nat) (index : Nat) (history : History)
    (samples : List Int) {left k : Nat} (inside : k < left) :
    let heard := decodeBlocks history (encodedBlocks loopBlock index history samples left)
    let before := (heard.take (blockSamples * k)).foldl History.push history
    let best := bestTrial (paddedChunk (samples.drop (blockSamples * k))) before
    (heard.drop (blockSamples * k)).take blockSamples =
      (decodeNibbles best.shift best.filter before best.nibbles).1 := by
  induction left generalizing index history samples k with
  | zero => omega
  | succ left ih =>
    obtain ⟨split, length, after⟩ :=
      decodeBlocks_encodedBlocks_succ loopBlock index history samples left
    rw [split]
    cases k with
    | zero => exact List.take_left' length
    | succ k =>
      have later := ih (index + 1) (bestTrial (paddedChunk samples) history).history
        (samples.drop blockSamples) (Nat.lt_of_succ_lt_succ inside)
      have next : blockSamples * (k + 1) = blockSamples + blockSamples * k := by
        rw [Nat.mul_succ, Nat.add_comm]
      generalize decodeBlocks (bestTrial (paddedChunk samples) history).history _ = rest at later ⊢
      generalize (decodeNibbles _ _ history _).1 = first at length after ⊢
      have front : (first ++ rest).take (blockSamples * (k + 1)) =
          first ++ rest.take (blockSamples * k) := by
        rw [next, ← length, List.take_length_add_append]
      have behind : (first ++ rest).drop (blockSamples * (k + 1)) =
          rest.drop (blockSamples * k) := by
        rw [next, ← length, List.drop_length_add_append]
      rw [List.drop_drop, ← next, after] at later
      dsimp only at later ⊢
      rw [front, behind, List.foldl_append]
      exact later

/-- The blocks that are heard of an encoded stream are all those written. -/
theorem untilLast_blocks_encode (pcm : List Int16) (loopStart : Option Nat) :
    untilLast (blocks (encode pcm loopStart)) =
      encodedBlocks (loopStart.map fun start => min (start / blockSamples)
        (blockCount pcm.length - 1)) 0 {} (pcm.map Int16.toInt) (blockCount pcm.length) := by
  rw [encode, blocks_encodeBlocks, untilLast_encodedBlocks]

theorem length_encode (pcm : List Int16) (loopStart : Option Nat) :
    (encode pcm loopStart).length = blockSize * blockCount pcm.length :=
  length_encodeBlocks ..

theorem length_pcm_encode (pcm : List Int16) (loopStart : Option Nat) :
    (decode (encode pcm loopStart)).pcm.length = blockSamples * blockCount pcm.length := by
  rw [decode, List.length_map, length_decodeBlocks (wellFormed_of_mem_untilLast _),
    untilLast_blocks_encode, length_encodedBlocks]

theorem blockCount_pos {pcm : List Int16} (filled : pcm ≠ []) : 0 < blockCount pcm.length := by
  have positive := List.length_pos_iff.mpr filled
  rw [blockCount, blockSamples]
  omega

/-- The loop begins with the block of its first sample, or with the last block. -/
theorem loopStart_encode {pcm : List Int16} (filled : pcm ≠ []) (loopStart : Option Nat) :
    (decode (encode pcm loopStart)).loopStart = loopStart.map fun start =>
      min (start / blockSamples) (blockCount pcm.length - 1) * blockSamples := by
  have positive := blockCount_pos filled
  rw [decode, untilLast_blocks_encode]
  cases loopStart with
  | none => exact congrArg (Option.map (· * blockSamples)) (findIdx?_loop_encodedBlocks_none ..)
  | some start =>
    have inside : min (start / blockSamples) (blockCount pcm.length - 1) <
        0 + blockCount pcm.length := by omega
    exact congrArg (Option.map (· * blockSamples))
      (findIdx?_loop_encodedBlocks (Nat.zero_le _) inside ..)

/-- The stream is as long as what is written. -/
theorem length?_encode {pcm : List Int16} (filled : pcm ≠ []) (loopStart : Option Nat) :
    length? (encode pcm loopStart) = some (encode pcm loopStart).length := by
  obtain ⟨left, count⟩ := Nat.exists_eq_succ_of_ne_zero (blockCount_pos filled).ne'
  rw [length_encode, length?, encode, blocks_encodeBlocks, count, findIdx?_last_encodedBlocks]
  exact congrArg some (Nat.mul_comm _ _)

/-- What the decoder hears of encoded samples: as many whole blocks as there are blocks written,
each with the least error that any setting has behind the two samples heard before it, which is
bounded; and the loop and the length that were written. -/
theorem decode_encode (pcm : List Int16) (loopStart : Option Nat) :
    let count := pcm.length ⌈/⌉ blockSamples
    let data := encode pcm loopStart
    let wanted := pcm.map Int16.toInt
    let heard := (decode data).pcm.map Int16.toInt
    data.length = blockSize * count ∧
      (decode data).pcm.length = blockSamples * count ∧
      (∀ k < count,
        let chunk := paddedChunk (wanted.drop (blockSamples * k))
        let error := squaredError chunk ((heard.drop (blockSamples * k)).take blockSamples)
        IsLeast (settingErrors chunk (historyAt heard (blockSamples * k))) error ∧
          error ≤ blockSamples * 4095 ^ 2) ∧
      (pcm ≠ [] →
        (decode data).loopStart = loopStart.map (fun start =>
            min (start / blockSamples) (count - 1) * blockSamples) ∧
          length? data = some data.length) := by
  intro count data wanted heard
  refine ⟨length_encode .., length_pcm_encode .., ?_, fun filled =>
    ⟨loopStart_encode filled loopStart, length?_encode filled loopStart⟩⟩
  intro k inside chunk error
  have stream : heard = decodeBlocks {} (encodedBlocks (loopStart.map fun start =>
      min (start / blockSamples) (blockCount pcm.length - 1)) 0 {} wanted count) := by
    show (decode data).pcm.map Int16.toInt = _
    rw [toInt_pcm, untilLast_blocks_encode]
    rfl
  have length : heard.length = blockSamples * count :=
    (List.length_map ..).trans (length_pcm_encode pcm loopStart)
  have before : (heard.take (blockSamples * k)).foldl History.push {} =
      historyAt heard (blockSamples * k) :=
    foldl_push_take (length ▸ Nat.mul_le_mul_left _ (Nat.le_of_lt inside))
  have played := heard_encodedBlocks (loopStart.map fun start =>
    min (start / blockSamples) (blockCount pcm.length - 1)) 0 {} wanted inside
  rw [← stream] at played
  dsimp only at played
  rw [before] at played
  have fit : ∀ sample ∈ chunk, IsSample sample := by
    refine isSample_of_mem_paddedChunk fun sample member => ?_
    obtain ⟨narrow, -, rfl⟩ := List.mem_map.mp (List.mem_of_mem_drop member)
    exact ⟨narrow.le_toInt, Int.le_of_lt_add_one narrow.toInt_lt⟩
  have size : chunk.length = blockSamples := length_paddedChunk _
  have bound := squaredError_bestTrial_le fit (historyAt heard (blockSamples * k))
  rw [size] at bound
  have same : error = squaredError chunk _ := congrArg (squaredError chunk) played
  rw [same]
  exact ⟨isLeast_bestTrial chunk _, bound⟩

/-- Two blocks, the first as loud as can be, with a loop that begins behind them. -/
theorem decode_encode_loud :
    let pcm : List Int16 := List.replicate 16 32767 ++ [-5]
    let data := encode pcm (some 40)
    let heard := (decode data).pcm.map Int16.toInt
    let chunk := paddedChunk ((pcm.map Int16.toInt).drop 16)
    let error := squaredError chunk ((heard.drop 16).take 16)
    1 < pcm.length ⌈/⌉ blockSamples ∧ pcm ≠ [] ∧ data.length = 18 ∧
      (decode data).pcm.length = 32 ∧
      IsLeast (settingErrors chunk (historyAt heard 16)) error ∧ error ≤ 16 * 4095 ^ 2 ∧
      (decode data).loopStart = some 16 ∧ length? data = some data.length := by
  intro pcm data heard chunk error
  have filled : pcm ≠ [] := by decide
  have count : pcm.length ⌈/⌉ blockSamples = 2 := by decide
  have second : 1 < pcm.length ⌈/⌉ blockSamples := by decide
  obtain ⟨bytes, samples, errors, marks⟩ := decode_encode pcm (some 40)
  obtain ⟨loop, length⟩ := marks filled
  rw [count] at bytes samples loop
  obtain ⟨least, bound⟩ := errors 1 second
  exact ⟨second, filled, bytes, samples, least, bound, loop, length⟩

end SnesMusic.Brr
