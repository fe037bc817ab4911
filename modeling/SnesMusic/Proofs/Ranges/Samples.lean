import SnesMusic.Proofs.Audio.Blocks
import SnesMusic.Proofs.Ranges.Trapping
import SnesMusic.Soundtrack.Load

/-!
# Samples on a machine

The decoder of samples on signed numbers of 32 bits, block by block as the bytes come, with the
loop's beginning kept beside the samples. Main statements: two samples of sixteen bits predict a
number far inside 32 bits (`predict_eq`), so every block is decoded (`decode_eq`), and a sample is
cut out of its data and its loop found without leaving them (`sampleOf_eq`).
-/
namespace SnesMusic.Trapping

open Brr

/-! ### Predictions -/

/-- The predicted sample. -/
def predict (filter : Nat) (history : History) : Trapping Int :=
  match filter with
  | 1 => do
    let negated ← int32 (-history.last)
    int32 (history.last + negated / 16)
  | 2 => do
    let rising ← int32 (history.last * 61)
    let falling ← int32 (history.older * 15)
    int32 (rising / 32 - falling / 16)
  | 3 => do
    let rising ← int32 (history.last * 115)
    let falling ← int32 (history.older * 13)
    int32 (rising / 64 - falling / 16)
  | _ => pure 0

/-- A nibble on its block's scale. -/
def scale (shift : Nat) (nibble : Int) : Trapping Int :=
  if shift ≤ maxShift then shiftLeft nibble shift
  else pure (if nibble < 0 then -2048 else 0)

/-- The sample that a nibble stands for after a prediction. -/
def reconstruct (shift : Nat) (predicted nibble : Int) : Trapping Int := do
  let scaled ← scale shift nibble
  let sum ← int32 (scaled + predicted)
  pure (clamp sum)

/-- A history of samples. -/
structure Remembered (history : History) : Prop where
  last : IsSample history.last
  older : IsSample history.older

theorem remembered_silence : Remembered {} := ⟨by decide, by decide⟩

theorem Remembered.push {history : History} (remembered : Remembered history) {sample : Int}
    (fits : IsSample sample) : Remembered (history.push sample) := ⟨fits, remembered.last⟩

variable {history : History}

theorem predict_eq (remembered : Remembered history) (filter : Nat) :
    predict filter history = pure (Brr.predict filter history) := by
  obtain ⟨⟨lastLow, lastHigh⟩, olderLow, olderHigh⟩ := remembered
  match filter with
  | 0 => rfl
  | 1 =>
    rw [predict, int32_eq (by omega) (by omega), pure_bind, int32_eq (by omega) (by omega)]
    rfl
  | 2 =>
    rw [predict, int32_eq (by omega) (by omega), pure_bind, int32_eq (by omega) (by omega),
      pure_bind, int32_eq (by omega) (by omega)]
    rfl
  | 3 =>
    rw [predict, int32_eq (by omega) (by omega), pure_bind, int32_eq (by omega) (by omega),
      pure_bind, int32_eq (by omega) (by omega)]
    rfl
  | _ + 4 => rfl

/-- Two samples predict no more than about three times the largest one. -/
theorem predict_bounds (remembered : Remembered history) (filter : Nat) :
    -100000 ≤ Brr.predict filter history ∧ Brr.predict filter history ≤ 100000 := by
  obtain ⟨⟨lastLow, lastHigh⟩, olderLow, olderHigh⟩ := remembered
  unfold Brr.predict
  split <;> omega

theorem isSample_reconstruct (shift : Nat) (predicted nibble : Int) :
    IsSample (Brr.reconstruct shift predicted nibble) := isSample_clamp _

theorem scale_bounds {nibble : Int} (fits : IsNibble nibble) (shift : Nat) :
    -32768 ≤ Brr.scale shift nibble ∧ Brr.scale shift nibble ≤ 28672 := by
  obtain ⟨low, high⟩ := fits
  unfold Brr.scale
  split
  · rename_i small
    have fine : (0 : Int) < Brr.step shift ∧ Brr.step shift ≤ 4096 := by
      unfold maxShift at small
      have bound : 2 ^ shift ≤ 2 ^ 12 := Nat.pow_le_pow_right (by omega) small
      have positive := Nat.two_pow_pos shift
      rw [Brr.step, Nat.shiftLeft_eq, Nat.one_mul]
      omega
    constructor <;> nlinarith
  · split <;> omega

theorem scale_eq {nibble : Int} (fits : IsNibble nibble) (shift : Nat) :
    scale shift nibble = pure (Brr.scale shift nibble) := by
  have bounds := scale_bounds fits shift
  unfold scale Brr.scale at *
  by_cases small : shift ≤ maxShift
  · have power : (Brr.step shift : Int) = 2 ^ shift := by
      rw [Brr.step, Nat.shiftLeft_eq, Nat.one_mul, Nat.cast_pow, Nat.cast_ofNat]
    rw [if_pos small, power] at bounds
    rw [if_pos small, if_pos small, power]
    unfold maxShift at small
    refine shiftLeft_eq ?_ ?_ ?_ <;> omega
  · rw [if_neg small, if_neg small]

theorem reconstruct_eq {nibble predicted : Int} (fits : IsNibble nibble) (shift : Nat)
    (low : -100000 ≤ predicted) (high : predicted ≤ 100000) :
    reconstruct shift predicted nibble = pure (Brr.reconstruct shift predicted nibble) := by
  have bounds := scale_bounds fits shift
  rw [reconstruct, scale_eq fits, pure_bind, int32_eq (by omega) (by omega)]
  rfl

/-! ### Blocks -/

/-- The samples of nibbles in turn, and the history after them. -/
def decodeNibbles (shift filter : Nat) (history : History) :
    List Int → Trapping (List Int × History)
  | [] => pure ([], history)
  | nibble :: rest => do
    let predicted ← predict filter history
    let sample ← reconstruct shift predicted nibble
    let others ← decodeNibbles shift filter (history.push sample) rest
    pure (sample :: others.1, others.2)

/-- A decoder between two blocks. -/
structure Decoder where
  history : History := {}
  pcm : List Int16 := []
  loopStart : Option Nat := none

/-- Where the loop begins, with the header of block number `i` read. -/
def Decoder.mark (d : Decoder) (i : Nat) (header : Header) : Trapping (Option Nat) :=
  if header.loop && d.loopStart.isNone then some <$> index (i * blockSamples)
  else pure d.loopStart

/-- Decodes block number `i`, and gives its header. -/
def Decoder.next (d : Decoder) (i : Nat) (piece : List UInt8) : Trapping (Header × Decoder) := do
  let header := Header.ofByte (← item piece 0)
  let loopStart ← d.mark i header
  let data ← part piece 1 piece.length
  let decoded ← decodeNibbles header.shift header.filter d.history (nibbles data)
  pure (header, {
    history := decoded.2
    pcm := d.pcm ++ decoded.1.map Int16.ofInt
    loopStart })

/-- Decodes the blocks from number `i` on, up to the one marked as the last. -/
def decodeFrom (i : Nat) (d : Decoder) : List (List UInt8) → Trapping Decoded
  | [] => pure { pcm := d.pcm, loopStart := d.loopStart }
  | piece :: rest => do
    let block ← d.next i piece
    if block.1.last then pure { pcm := block.2.pcm, loopStart := block.2.loopStart }
    else decodeFrom (i + 1) block.2 rest

/-- Decodes a stream; room for the samples of all blocks is made first. -/
def decode (data : List UInt8) : Trapping Decoded := do
  let _ ← index (data.length / blockSize * blockSamples)
  decodeFrom 0 {} (chunks blockSize data)

theorem decodeNibbles_eq (remembered : Remembered history) {list : List Int}
    (fit : ∀ nibble ∈ list, IsNibble nibble) (shift filter : Nat) :
    decodeNibbles shift filter history list = pure (Brr.decodeNibbles shift filter history list) ∧
      Remembered (Brr.decodeNibbles shift filter history list).2 := by
  induction list generalizing history with
  | nil => exact ⟨rfl, remembered⟩
  | cons nibble rest ih =>
    obtain ⟨low, high⟩ := predict_bounds remembered filter
    obtain ⟨others, after⟩ := ih
      (remembered.push (isSample_reconstruct shift (Brr.predict filter history) nibble))
      fun other later => fit other (List.mem_cons_of_mem _ later)
    refine ⟨?_, after⟩
    rw [decodeNibbles, predict_eq remembered, pure_bind,
      reconstruct_eq (fit nibble (List.mem_cons_self ..)) shift low high, pure_bind, others]
    rfl

/-- The block in a piece of nine bytes. -/
def blockOf (piece : List UInt8) : Brr.Block where
  header := Header.ofByte (piece.getD 0 0)
  data := piece.drop 1

theorem blocks_eq_chunks (data : List UInt8) :
    Brr.blocks data = (chunks blockSize data).map blockOf := by
  refine eq_map_chunks (by decide) ?_ (fun _ => blocks_of_short) data
  intro piece rest whole
  match piece, whole with
  | [_, _, _, _, _, _, _, _, _], _ => rfl

theorem mark_eq (d : Decoder) {i : Nat} (small : i * blockSamples < 2 ^ 32) (header : Header) :
    d.mark i header =
      pure (d.loopStart.or (if header.loop then some (i * blockSamples) else none)) := by
  rw [Decoder.mark, index_eq_of_small small]
  cases header.loop <;> cases d.loopStart <;> rfl

/-- The decoder after block number `i`. -/
def Decoder.after (d : Decoder) (i : Nat) (block : Brr.Block) : Decoder where
  history := (block.decode d.history).2
  pcm := d.pcm ++ (block.decode d.history).1.map Int16.ofInt
  loopStart := d.loopStart.or (if block.header.loop then some (i * blockSamples) else none)

theorem next_eq {piece : List UInt8} {i : Nat} {d : Decoder} (remembered : Remembered d.history)
    (whole : piece.length = blockSize) (small : i * blockSamples < 2 ^ 32) :
    d.next i piece = pure ((blockOf piece).header, d.after i (blockOf piece)) ∧
      Remembered (d.after i (blockOf piece)).history := by
  match piece, whole with
  | first :: data, _ =>
    obtain ⟨decoded, after⟩ := decodeNibbles_eq remembered
      (fun (nibble : Int) (member : nibble ∈ nibbles data) => isNibble_of_mem_nibbles member)
      (Header.ofByte first).shift (Header.ofByte first).filter
    refine ⟨?_, after⟩
    rw [Decoder.next, item_cons_zero, pure_bind]
    simp only [mark_eq d small, pure_bind]
    rw [part_eq (by simp) (Nat.le_refl _), List.take_length, pure_bind, List.drop_one,
      List.tail_cons, decoded, pure_bind]
    rfl

/-- The decoder goes through the blocks up to the last one; `d` holds what came before them. -/
theorem decodeFrom_eq {pieces : List (List UInt8)} {i : Nat} {d : Decoder}
    (remembered : Remembered d.history) (whole : ∀ piece ∈ pieces, piece.length = blockSize)
    (small : (i + pieces.length) * blockSamples < 2 ^ 32) :
    decodeFrom i d pieces = pure {
      pcm := d.pcm ++
        (Brr.decodeBlocks d.history (untilLast (pieces.map blockOf))).map Int16.ofInt
      loopStart := d.loopStart.or (((untilLast (pieces.map blockOf)).findIdx? (·.header.loop)).map
        fun k => (i + k) * blockSamples) } := by
  induction pieces generalizing i d with
  | nil => simp [decodeFrom, untilLast, Brr.decodeBlocks]
  | cons piece rest ih =>
    rw [List.length_cons] at small
    obtain ⟨next, after⟩ := next_eq remembered (whole piece (List.mem_cons_self ..))
      (i := i) (by unfold blockSamples at *; omega)
    rw [decodeFrom, next, pure_bind, List.map_cons, untilLast]
    simp only
    split
    · simp only [Decoder.after, Brr.decodeBlocks, List.append_nil, List.findIdx?_cons]
      cases (blockOf piece).header.loop <;> simp
    · rw [ih after (fun other later => whole other (List.mem_cons_of_mem _ later))
        (by rwa [Nat.add_assoc, Nat.add_comm 1])]
      simp only [Decoder.after, Brr.decodeBlocks, List.findIdx?_cons, List.map_append,
        List.append_assoc, Option.or_assoc]
      cases (blockOf piece).header.loop
      · simp [Nat.add_assoc, Nat.add_comm 1, Function.comp_def]
      · simp

/-- A stream of at most 64 KiB is decoded on a machine. -/
theorem decode_eq {data : List UInt8} (small : data.length < UInt16.size) :
    decode data = pure (Brr.decode data) := by
  unfold UInt16.size at small
  have pieces := length_chunks_mul_le blockSize data
  have room : data.length / blockSize * blockSamples < 2 ^ 32 := by
    unfold blockSize blockSamples
    omega
  have few : (0 + (chunks blockSize data).length) * blockSamples < 2 ^ 32 := by
    unfold blockSize blockSamples at *
    omega
  rw [decode, index_eq_of_small room, pure_bind, decodeFrom_eq remembered_silence
    (fun piece member => length_of_mem_chunks member) few, ← blocks_eq_chunks]
  simp [Brr.decode]

/-! ### Cutting samples out -/

/-- Bytes up to the end of the block marked as the last. -/
def streamLength (data : List UInt8) : Trapping (Option Nat) := do
  let headers ← (chunks blockSize data).mapM fun piece => Header.ofByte <$> item piece 0
  match headers.findIdx? (·.last) with
  | none => pure none
  | some i => do
    let count ← index (i + 1)
    some <$> index (count * blockSize)

theorem headers_eq (data : List UInt8) :
    (chunks blockSize data).mapM (fun piece => Header.ofByte <$> item piece 0) =
      pure ((Brr.blocks data).map (·.header)) := by
  rw [blocks_eq_chunks, List.map_map]
  apply mapM_eq
  intro piece member
  match piece, length_of_mem_chunks member with
  | first :: rest, _ => rfl

theorem length?_le {data : List UInt8} {length : Nat} (found : Brr.length? data = some length) :
    length ≤ data.length := by
  have pieces := length_chunks_mul_le blockSize data
  rw [Brr.length?, blocks_eq_chunks, Option.map_eq_some_iff] at found
  obtain ⟨i, place, rfl⟩ := found
  have inside := (List.findIdx?_eq_some_iff_getElem.mp place).1
  rw [List.length_map] at inside
  unfold blockSize at *
  omega

theorem streamLength_eq {data : List UInt8} (small : data.length < UInt16.size) :
    streamLength data = pure (Brr.length? data) := by
  unfold UInt16.size at small
  rw [streamLength, headers_eq, pure_bind, List.findIdx?_map]
  change (match (Brr.blocks data).findIdx? (·.header.last) with | none => _ | some i => _) = _
  cases found : (Brr.blocks data).findIdx? (·.header.last) with
  | none => rw [Brr.length?, found]; rfl
  | some i =>
    have length : Brr.length? data = some ((i + 1) * blockSize) := by rw [Brr.length?, found]; rfl
    have inside := length?_le length
    unfold blockSize at *
    simp only [index_eq_of_small (show i + 1 < 2 ^ 32 by omega), pure_bind,
      index_eq_of_small (show (i + 1) * 9 < 2 ^ 32 by omega), length, map_pure]

/-- The bytes of a sample: up to its last block, or as far as whole blocks go. -/
def sampleLength (data : List UInt8) : Trapping Nat := do
  match ← streamLength data with
  | some length => pure length
  | none => index (data.length / blockSize * blockSize)

/-- Where the loop begins, counted in samples. -/
def loopPoint (start loop : UInt16) : Trapping Nat :=
  if start ≤ loop then do
    let distance ← minus loop.toNat start.toNat
    index (distance / blockSize * blockSamples)
  else pure 0

/-- Reads a sample. -/
def sampleOf (name : String) (start loop : UInt16) (data : List UInt8) : Trapping Sample := do
  let length ← sampleLength data
  let encoded ← part data 0 length
  let decoded ← decode encoded
  let loopPoint ← loopPoint start loop
  pure { name, encoded, pcm := decoded.pcm, loopPoint, loops := decoded.loopStart.isSome }

theorem sampleLength_eq {data : List UInt8} (small : data.length < UInt16.size) :
    sampleLength data =
      pure ((Brr.length? data).getD (data.length / blockSize * blockSize)) := by
  rw [sampleLength, streamLength_eq small, pure_bind]
  cases Brr.length? data with
  | some length => rfl
  | none =>
    unfold UInt16.size at small
    unfold blockSize
    exact index_eq_of_small (by omega)

theorem loopPoint_eq (start loop : UInt16) :
    loopPoint start loop = pure ((loop.toNat - start.toNat) / blockSize * blockSamples) := by
  have bound := loop.toNat_lt
  unfold loopPoint
  split
  · rename_i le
    rw [minus_eq (UInt16.le_iff_toNat_le.mp le), pure_bind]
    unfold blockSize blockSamples
    exact index_eq_of_small (by omega)
  · rename_i lt
    rw [UInt16.le_iff_toNat_le] at lt
    rw [Nat.sub_eq_zero_of_le (by omega)]
    rfl

/-- A sample is cut out of its data, decoded and given its loop within the machine's bounds. -/
theorem sampleOf_eq (name : String) (start loop : UInt16) {data : List UInt8}
    (small : data.length < UInt16.size) :
    sampleOf name start loop data = pure (SnesMusic.sampleOf name start loop data) := by
  have inside : (Brr.length? data).getD (data.length / blockSize * blockSize) ≤ data.length := by
    cases found : Brr.length? data with
    | some length => exact length?_le found
    | none => exact Nat.div_mul_le_self _ _
  rw [sampleOf, sampleLength_eq small, pure_bind, part_zero inside, pure_bind,
    decode_eq (by rw [List.length_take]; omega), pure_bind, loopPoint_eq, pure_bind]
  rfl

end SnesMusic.Trapping
