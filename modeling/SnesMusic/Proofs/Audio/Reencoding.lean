import SnesMusic.Proofs.Audio.Encoder

/-!
# Encoding decoded samples again

Decoding loses the scales and filters, but not more: as long as no sample of a stream has to be
clamped, encoding what was decoded gives blocks that decode to the same samples and loop. Each
block's own setting is a trial without error, so the search ends with one, and the encoder's history
stays that of the decoder. Main statement: `decode_encode_decode`.
-/
namespace SnesMusic.Brr

/-! ### Streams that need no clamping -/

/-- Every sample of these nibbles fits sixteen bits by itself. -/
def Unclamped (shift filter : Nat) (history : History) : List Int → Prop
  | [] => True
  | nibble :: rest =>
    IsSample (scale shift nibble + predict filter history) ∧
      Unclamped shift filter (history.push (reconstruct shift (predict filter history) nibble)) rest

/-- Every sample of these blocks fits sixteen bits by itself. -/
def UnclampedBlocks (history : History) : List Block → Prop
  | [] => True
  | block :: rest =>
    Unclamped block.header.shift block.header.filter history (nibbles block.data) ∧
      UnclampedBlocks (block.decode history).2 rest

/-- The decoder never has to clamp a sample of this stream. -/
def NeverClamped (data : List UInt8) : Prop := UnclampedBlocks {} (untilLast (blocks data))

instance decidableUnclamped (shift filter : Nat) :
    ∀ (history : History) (list : List Int), Decidable (Unclamped shift filter history list)
  | _, [] => .isTrue trivial
  | history, nibble :: rest =>
    haveI := decidableUnclamped shift filter
      (history.push (reconstruct shift (predict filter history) nibble)) rest
    inferInstanceAs (Decidable (_ ∧ _))

instance decidableUnclampedBlocks :
    ∀ (history : History) (list : List Block), Decidable (UnclampedBlocks history list)
  | _, [] => .isTrue trivial
  | history, block :: rest =>
    haveI := decidableUnclampedBlocks (block.decode history).2 rest
    inferInstanceAs (Decidable (_ ∧ _))

instance (data : List UInt8) : Decidable (NeverClamped data) :=
  inferInstanceAs (Decidable (UnclampedBlocks _ _))

theorem clamp_eq {value : Int} (fits : IsSample value) : clamp value = value := by
  rw [IsSample] at fits
  rw [clamp]
  omega

/-! ### One block -/

theorem step_pos (shift : Nat) : 0 < step shift := by
  have positive : 0 < 1 <<< shift := by simp [Nat.shiftLeft_eq]
  exact Int.natCast_pos.mpr positive

/-- A nibble on its scale is the closest one to the value that it stands for. -/
theorem quantize_scale {shift : Nat} (small : shift ≤ maxShift) {nibble : Int}
    (fits : IsNibble nibble) (predicted : Int) :
    quantize shift predicted (scale shift nibble + predicted) = nibble := by
  have positive := step_pos shift
  have half : step shift / 2 / step shift = 0 := Int.ediv_eq_zero_of_lt (by omega) (by omega)
  have quotient : (nibble * step shift + step shift / 2) / step shift = nibble := by
    rw [Int.add_comm, Int.add_mul_ediv_right _ _ positive.ne', half, Int.zero_add]
  obtain ⟨lower, upper⟩ := fits
  rw [quantize, scale, if_pos small, Int.add_sub_cancel, quotient]
  omega

/-- Trying a block's own setting on what it decodes to finds its nibbles, without error. -/
theorem tryNibbles_decodeNibbles {shift filter : Nat} (small : shift ≤ maxShift)
    {history : History} {list : List Int} (fit : ∀ nibble ∈ list, IsNibble nibble)
    (unclamped : Unclamped shift filter history list) :
    tryNibbles shift filter history (decodeNibbles shift filter history list).1 =
      (list, 0, (decodeNibbles shift filter history list).2) := by
  induction list generalizing history with
  | nil => rfl
  | cons nibble rest ih =>
    obtain ⟨inside, later⟩ := unclamped
    have value : reconstruct shift (predict filter history) nibble =
        scale shift nibble + predict filter history := clamp_eq inside
    have found : quantize shift (predict filter history)
        (reconstruct shift (predict filter history) nibble) = nibble := by
      rw [value]
      exact quantize_scale small (fit nibble List.mem_cons_self) _
    have others := ih (fun n member => fit n (List.mem_cons_of_mem _ member)) later
    simp only [decodeNibbles, tryNibbles, found, others, sub_self, mul_zero, add_zero]

/-- The encoder has every scale: one beyond its largest keeps the sign of a nibble only, which the
scale of 2048 does as well. -/
theorem exists_scale (shift : Nat) : ∃ fine ≤ maxShift, ∃ rescaled : Int → Int,
    ∀ nibble, IsNibble nibble →
      IsNibble (rescaled nibble) ∧ scale fine (rescaled nibble) = scale shift nibble := by
  by_cases small : shift ≤ maxShift
  · exact ⟨shift, small, id, fun nibble fits => ⟨fits, rfl⟩⟩
  · refine ⟨11, by decide, fun nibble => if nibble < 0 then -1 else 0, fun nibble _ => ?_⟩
    rw [scale, scale, if_neg small, if_pos (by decide)]
    dsimp only
    split
    · exact ⟨by decide, by decide⟩
    · exact ⟨by decide, by decide⟩

theorem decodeNibbles_map {fine shift filter : Nat} {history : History} {list : List Int}
    {rescaled : Int → Int}
    (same : ∀ nibble ∈ list, scale fine (rescaled nibble) = scale shift nibble) :
    decodeNibbles fine filter history (list.map rescaled) =
        decodeNibbles shift filter history list ∧
      (Unclamped shift filter history list →
        Unclamped fine filter history (list.map rescaled)) := by
  induction list generalizing history with
  | nil => exact ⟨rfl, id⟩
  | cons nibble rest ih =>
    have first := same nibble List.mem_cons_self
    have others := fun h => @ih h fun n member => same n (List.mem_cons_of_mem _ member)
    constructor
    · simp only [List.map_cons, decodeNibbles, reconstruct, first, (others _).1]
    · rintro ⟨inside, later⟩
      simp only [List.map_cons, Unclamped, reconstruct, first]
      exact ⟨inside, (others _).2 later⟩

/-- A scale and a filter of the encoder reproduce an unclamped block. -/
theorem exists_exact_trial {shift filter : Nat} {history : History} {list : List Int}
    (fit : ∀ nibble ∈ list, IsNibble nibble) (unclamped : Unclamped shift filter history list) :
    ∃ fine ≤ maxShift,
      (trial (decodeNibbles shift filter history list).1 history fine filter).error = 0 := by
  obtain ⟨fine, small, rescaled, rescale⟩ := exists_scale shift
  have moved := @decodeNibbles_map fine shift filter history list rescaled
    fun nibble member => (rescale nibble (fit nibble member)).2
  have exact := tryNibbles_decodeNibbles small
    (List.forall_mem_map.mpr fun nibble member => (rescale nibble (fit nibble member)).1)
    (moved.2 unclamped)
  rw [moved.1] at exact
  refine ⟨fine, small, ?_⟩
  rw [trial, exact]

/-- The trial that is chosen for the samples of an unclamped block decodes to them. -/
theorem decodeNibbles_bestTrial {shift filter : Nat} (known : filter < 4) {history : History}
    {list : List Int} (fit : ∀ nibble ∈ list, IsNibble nibble)
    (unclamped : Unclamped shift filter history list) {heard : List Int × History}
    (decoded : decodeNibbles shift filter history list = heard) :
    let best := bestTrial heard.1 history
    decodeNibbles best.shift best.filter history best.nibbles = heard ∧ best.history = heard.2 := by
  intro best
  have hears : best.Hears heard.1 history := hears_bestTrial heard.1 history
  have least : best.error ≤ 0 := by
    obtain ⟨fine, small, exact⟩ := exists_exact_trial fit unclamped
    rw [decoded] at exact
    exact (bestTrial_error_le small known heard.1 history).trans_eq exact
  have samples : (decodeNibbles best.shift best.filter history best.nibbles).1 = heard.1 := by
    refine (eq_of_squaredError_le_zero ?_ (hears.error ▸ least)).symm
    rw [length_decodeNibbles, hears.length]
  have after : (decodeNibbles best.shift best.filter history best.nibbles).2 = heard.2 := by
    rw [decodeNibbles_history, samples, ← decoded, decodeNibbles_history]
  exact ⟨Prod.ext samples after, hears.after.trans after⟩

/-! ### The stream -/

theorem decodeBlocks_encodedBlocks {history : History} {list : List Block}
    (formed : ∀ block ∈ list, block.WellFormed) (unclamped : UnclampedBlocks history list)
    (loopBlock : Option Nat) (index : Nat) :
    decodeBlocks history
        (encodedBlocks loopBlock index history (decodeBlocks history list) list.length) =
      decodeBlocks history list := by
  induction list generalizing history index with
  | nil => rfl
  | cons block rest ih =>
    obtain ⟨first, later⟩ := unclamped
    have shape := formed block List.mem_cons_self
    have whole := shape.length_decode history
    have fit : ∀ nibble ∈ nibbles block.data, IsNibble nibble :=
      fun _ => isNibble_of_mem_nibbles
    obtain ⟨decoded, after⟩ := decodeNibbles_bestTrial shape.filter fit first
      (show _ = block.decode history from rfl)
    have others := ih (fun b member => formed b (List.mem_cons_of_mem _ member)) later (index + 1)
    have chosen := (hears_bestTrial (block.decode history).1 history).decode_block whole
      (loopBlock.any (· ≤ index)) (rest.length == 0)
    rw [decoded] at chosen
    simp only [decodeBlocks, List.length_cons, encodedBlocks, paddedChunk_append whole,
      List.drop_left' whole, chosen, after, others]

theorem blockCount_mul (count : Nat) : blockCount (blockSamples * count) = count := by
  rw [blockCount, blockSamples]
  omega

/-- The encoder is given back the blocks that were decoded: as many, and the same loop. -/
theorem encode_decode (data : List UInt8) :
    let played := untilLast (blocks data)
    encode (decode data).pcm (decode data).loopStart =
      encodeBlocks (played.findIdx? (·.header.loop)) 0 {} (decodeBlocks {} played)
        played.length := by
  intro played
  have length : (decode data).pcm.length = blockSamples * played.length := by
    rw [decode, List.length_map, length_decodeBlocks (wellFormed_of_mem_untilLast data)]
  have loop : ((decode data).loopStart.map fun start =>
      min (start / blockSamples) (played.length - 1)) = played.findIdx? (·.header.loop) := by
    simp only [decode, Option.map_map]
    cases found : played.findIdx? (·.header.loop) with
    | none => rfl
    | some index =>
      obtain ⟨inside, -⟩ := List.findIdx?_eq_some_iff_getElem.mp found
      have start : index * blockSamples / blockSamples = index :=
        Nat.mul_div_cancel index (by decide)
      simp only [Option.map_some, Function.comp_apply, start, Option.some.injEq]
      omega
  rw [encode, length, blockCount_mul, toInt_pcm, loop]

/-- The first block with a loop mark is the same again. -/
theorem findIdx?_loop_encoded (list : List Block) (history : History) (samples : List Int) :
    (encodedBlocks (list.findIdx? (·.header.loop)) 0 history samples list.length).findIdx?
        (·.header.loop) = list.findIdx? (·.header.loop) := by
  cases found : list.findIdx? (·.header.loop) with
  | none => exact findIdx?_loop_encodedBlocks_none ..
  | some index =>
    obtain ⟨inside, -⟩ := List.findIdx?_eq_some_iff_getElem.mp found
    exact findIdx?_loop_encodedBlocks (Nat.zero_le _) (by omega) history samples

/-- Encoding the samples of a stream that needs no clamping, with its loop, gives a stream that
decodes to the same samples and the same loop. -/
theorem decode_encode_decode (data : List UInt8) (unclamped : NeverClamped data) :
    decode (encode (decode data).pcm (decode data).loopStart) = decode data := by
  rw [encode_decode, decode, blocks_encodeBlocks, untilLast_encodedBlocks,
    decodeBlocks_encodedBlocks (wellFormed_of_mem_untilLast data) unclamped,
    findIdx?_loop_encoded]
  rfl

/-- A looping block of scale 13, beyond the encoder's, and a last block with a filter. -/
theorem decode_encode_decode_coarse :
    let data : List UInt8 := [0xD2, 0x0F, 0xF0, 0, 0, 0x8F, 0, 0, 0x12,
      0x49, 0x12, 0x34, 0x56, 0x7F, 0xED, 0xCB, 0xA9, 0x80]
    NeverClamped data ∧
      decode (encode (decode data).pcm (decode data).loopStart) = decode data :=
  ⟨by decide, decode_encode_decode _ (by decide)⟩

end SnesMusic.Brr
