import SnesMusic.Proofs.Audio.Blocks

/-!
# The encoder's search

For each block the encoder keeps a trial of every scale and filter; a trial knows what the decoder
will hear. Main statements: `hears_bestTrial` (the chosen trial's error and history are those of its
decoded nibbles), `bestTrial_error_le` (no setting comes closer), and `blocks_encodeBlocks` (the
bytes written are read back as the chosen blocks).
-/
namespace SnesMusic.Brr

/-! ### Error -/

/-- The sum of the squared distances between the samples wanted and those heard. -/
def squaredError : List Int → List Int → Int
  | wanted :: others, heard :: rest =>
    (wanted - heard) * (wanted - heard) + squaredError others rest
  | _, _ => 0

theorem squaredError_nonneg (wanted heard : List Int) : 0 ≤ squaredError wanted heard := by
  fun_induction squaredError wanted heard with
  | case1 w others h rest ih => exact add_nonneg (mul_self_nonneg _) ih
  | case2 => exact le_rfl

/-- Samples that are heard without error are the ones wanted. -/
theorem eq_of_squaredError_le_zero {wanted heard : List Int} (same : wanted.length = heard.length)
    (exact : squaredError wanted heard ≤ 0) : wanted = heard := by
  induction wanted generalizing heard with
  | nil => exact (List.length_eq_zero_iff.mp same.symm).symm
  | cons w others ih =>
    match heard, same with
    | h :: rest, same =>
      rw [squaredError] at exact
      have square := mul_self_nonneg (w - h)
      have others_nonneg := squaredError_nonneg others rest
      have first : w - h = 0 := mul_self_eq_zero.mp (by omega)
      have tail := ih (Nat.succ.inj same) (by omega)
      rw [tail, sub_eq_zero.mp first]

/-! ### Trials -/

/-- A trial is of a setting the encoder may use, and its error and history are those that the
decoder arrives at from its nibbles. -/
structure Trial.Hears (t : Trial) (samples : List Int) (history : History) : Prop where
  shift : t.shift ≤ maxShift
  filter : t.filter < 4
  length : t.nibbles.length = samples.length
  fit : ∀ nibble ∈ t.nibbles, IsNibble nibble
  error : t.error = squaredError samples (decodeNibbles t.shift t.filter history t.nibbles).1
  after : t.history = (decodeNibbles t.shift t.filter history t.nibbles).2

theorem isNibble_quantize (shift : Nat) (predicted sample : Int) :
    IsNibble (quantize shift predicted sample) := by
  rw [IsNibble, quantize]
  omega

theorem hears_trial {shift filter : Nat} (small : shift ≤ maxShift) (known : filter < 4)
    (samples : List Int) (history : History) :
    (trial samples history shift filter).Hears samples history := by
  suffices spec :
      (tryNibbles shift filter history samples).1.length = samples.length ∧
      (∀ nibble ∈ (tryNibbles shift filter history samples).1, IsNibble nibble) ∧
      (tryNibbles shift filter history samples).2.1 = squaredError samples
        (decodeNibbles shift filter history (tryNibbles shift filter history samples).1).1 ∧
      (tryNibbles shift filter history samples).2.2 =
        (decodeNibbles shift filter history (tryNibbles shift filter history samples).1).2 from
    ⟨small, known, spec.1, spec.2.1, spec.2.2.1, spec.2.2.2⟩
  induction samples generalizing history with
  | nil => simp [tryNibbles, decodeNibbles, squaredError]
  | cons sample rest ih =>
    have others := ih (history.push (reconstruct shift (predict filter history)
      (quantize shift (predict filter history) sample)))
    obtain ⟨length, fit, error, after⟩ := others
    refine ⟨congrArg (· + 1) length, ?_, ?_, after⟩
    · intro nibble member
      rcases List.mem_cons.mp member with rfl | later
      · exact isNibble_quantize _ _ _
      · exact fit nibble later
    · exact congrArg (_ + ·) error

theorem mem_settings {shift filter : Nat} :
    (shift, filter) ∈ settings ↔ shift ≤ maxShift ∧ filter < 4 := by
  simp [settings, Nat.lt_succ_iff]

/-- The search keeps one of the trials it has seen, and none of them is closer. -/
theorem foldl_better (run : Nat × Nat → Trial) (list : List (Nat × Nat)) (start : Trial) :
    let best := list.foldl (fun best setting => better best (run setting)) start
    best ∈ start :: list.map run ∧ ∀ t ∈ start :: list.map run, best.error ≤ t.error := by
  induction list generalizing start with
  | nil => simp
  | cons setting rest ih =>
    obtain ⟨member, least⟩ := ih (better start (run setting))
    have chosen : better start (run setting) = start ∨
        better start (run setting) = run setting := by
      rw [better]
      split
      · exact .inr rfl
      · exact .inl rfl
    have closer : (better start (run setting)).error ≤ start.error ∧
        (better start (run setting)).error ≤ (run setting).error := by
      rw [better]
      split <;> omega
    have first := least _ List.mem_cons_self
    dsimp only [List.foldl_cons, List.map_cons]
    constructor
    · rcases List.mem_cons.mp member with same | later
      · rw [same]
        rcases chosen with eq | eq <;> simp [eq]
      · exact List.mem_cons_of_mem _ (List.mem_cons_of_mem _ later)
    · intro t seen
      rcases List.mem_cons.mp seen with rfl | seen
      · exact first.trans closer.1
      · rcases List.mem_cons.mp seen with rfl | seen
        · exact first.trans closer.2
        · exact least t (List.mem_cons_of_mem _ seen)

/-- The search ends with a trial of one of the settings. -/
theorem exists_bestTrial_eq (samples : List Int) (history : History) :
    ∃ shift ≤ maxShift, ∃ filter < 4,
      bestTrial samples history = trial samples history shift filter := by
  have kept := (foldl_better (fun setting => trial samples history setting.1 setting.2) settings
    (trial samples history 0 0)).1
  rcases List.mem_cons.mp kept with first | later
  · exact ⟨0, Nat.zero_le _, 0, by decide, first⟩
  · obtain ⟨⟨shift, filter⟩, member, eq⟩ := List.mem_map.mp later
    obtain ⟨small, known⟩ := mem_settings.mp member
    exact ⟨shift, small, filter, known, eq.symm⟩

theorem hears_bestTrial (samples : List Int) (history : History) :
    (bestTrial samples history).Hears samples history := by
  obtain ⟨shift, small, filter, known, eq⟩ := exists_bestTrial_eq samples history
  rw [eq]
  exact hears_trial small known samples history

theorem bestTrial_error_le {shift filter : Nat} (small : shift ≤ maxShift) (known : filter < 4)
    (samples : List Int) (history : History) :
    (bestTrial samples history).error ≤ (trial samples history shift filter).error := by
  refine (foldl_better (fun setting => trial samples history setting.1 setting.2) settings
    (trial samples history 0 0)).2 _ (List.mem_cons_of_mem _ ?_)
  exact List.mem_map.mpr ⟨(shift, filter), mem_settings.mpr ⟨small, known⟩, rfl⟩

/-! ### The blocks written -/

/-- The samples of the next block, with silence behind the last of them. -/
def paddedChunk (samples : List Int) : List Int :=
  samples.take blockSamples ++
    List.replicate (blockSamples - (samples.take blockSamples).length) 0

theorem length_paddedChunk (samples : List Int) : (paddedChunk samples).length = blockSamples := by
  have bound : (samples.take blockSamples).length ≤ blockSamples := List.length_take_le ..
  rw [paddedChunk, List.length_append, List.length_replicate]
  omega

theorem paddedChunk_append {chunk : List Int} (whole : chunk.length = blockSamples)
    (rest : List Int) : paddedChunk (chunk ++ rest) = chunk := by
  rw [paddedChunk, List.take_left' whole, whole, Nat.sub_self, List.replicate_zero, List.append_nil]

/-- The block of a trial. -/
def Trial.block (t : Trial) (loop last : Bool) : Block :=
  { header := { shift := t.shift, filter := t.filter, loop, last }
    data := pack t.nibbles }

theorem Trial.Hears.decode_block {t : Trial} {samples : List Int} {history : History}
    (hears : t.Hears samples history) (whole : samples.length = blockSamples) (loop last : Bool) :
    (t.block loop last).decode history =
      decodeNibbles t.shift t.filter history t.nibbles := by
  have even : t.nibbles.length = 2 * 8 := hears.length.trans whole
  rw [Block.decode, block, (nibbles_pack even hears.fit).1]

theorem Trial.Hears.blocks_append {t : Trial} {samples : List Int} {history : History}
    (hears : t.Hears samples history) (whole : samples.length = blockSamples) (loop last : Bool)
    (rest : List UInt8) :
    blocks ((t.block loop last).header.toByte :: (t.block loop last).data ++ rest) =
      t.block loop last :: blocks rest := by
  have even : t.nibbles.length = 2 * 8 := hears.length.trans whole
  have small : t.shift < 16 := Nat.lt_of_le_of_lt hears.shift (by decide)
  have size : (t.block loop last).data.length = 8 := (nibbles_pack even hears.fit).2
  have header := @Header.ofByte_toByte (t.block loop last).header small hears.filter
  rw [blocks_cons _ size, header]

/-- The blocks that the encoder writes, before they become bytes. -/
def encodedBlocks (loopBlock : Option Nat) (index : Nat) (history : History) (samples : List Int) :
    Nat → List Block
  | 0 => []
  | left + 1 =>
    let best := bestTrial (paddedChunk samples) history
    best.block (loopBlock.any (· ≤ index)) (left == 0) ::
      encodedBlocks loopBlock (index + 1) best.history (samples.drop blockSamples) left

theorem blocks_encodeBlocks (loopBlock : Option Nat) (index : Nat) (history : History)
    (samples : List Int) (left : Nat) :
    blocks (encodeBlocks loopBlock index history samples left) =
      encodedBlocks loopBlock index history samples left := by
  induction left generalizing index history samples with
  | zero => rfl
  | succ left ih =>
    have hears := hears_bestTrial (paddedChunk samples) history
    have read := hears.blocks_append (length_paddedChunk samples) (loopBlock.any (· ≤ index))
      (left == 0)
    rw [encodeBlocks, encodedBlocks, ← ih, ← paddedChunk]
    generalize bestTrial (paddedChunk samples) history = best at read ⊢
    exact read _

/-- The end is marked on the last block and on no other. -/
theorem untilLast_encodedBlocks (loopBlock : Option Nat) (index : Nat) (history : History)
    (samples : List Int) (left : Nat) :
    untilLast (encodedBlocks loopBlock index history samples left) =
      encodedBlocks loopBlock index history samples left := by
  induction left generalizing index history samples with
  | zero => rfl
  | succ left ih =>
    rw [encodedBlocks, untilLast, ih]
    cases left with
    | zero => rfl
    | succ left => rfl

/-- The first loop mark stands on the block that the loop begins with. -/
theorem findIdx?_loop_encodedBlocks {first index left : Nat} (reached : index ≤ first)
    (inside : first < index + left) (history : History) (samples : List Int) :
    (encodedBlocks (some first) index history samples left).findIdx? (·.header.loop) =
      some (first - index) := by
  induction left generalizing index history samples with
  | zero => omega
  | succ left ih =>
    rw [encodedBlocks, List.findIdx?_cons]
    rcases Nat.eq_or_lt_of_le reached with rfl | later
    · simp [Trial.block]
    · have unmarked : ¬ first ≤ index := by omega
      have tail := ih later (by omega) (bestTrial (paddedChunk samples) history).history
        (samples.drop blockSamples)
      simp only [Trial.block, Option.any_some, unmarked, decide_false, Bool.false_eq_true,
        if_false, tail, Option.map_some, Option.some.injEq]
      omega

theorem findIdx?_loop_encodedBlocks_none (index : Nat) (history : History) (samples : List Int)
    (left : Nat) :
    (encodedBlocks none index history samples left).findIdx? (·.header.loop) = none := by
  induction left generalizing index history samples with
  | zero => rfl
  | succ left ih =>
    rw [encodedBlocks, List.findIdx?_cons, ih]
    rfl

end SnesMusic.Brr
