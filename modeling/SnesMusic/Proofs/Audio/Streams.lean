import Mathlib.Order.Bounds.Basic
import SnesMusic.Proofs.Audio.Blocks

/-!
# Streams of blocks

A stream ends with its first block that is marked as the last, or where whole blocks end. The length
of a stream is found by one pass over the blocks and its samples by another, which also finds the
loop. Main statements: one pass that stops at the last block gives both samples and loop
(`run_decodeInto`), and what is heard of a byte string is just the stream at its beginning
(`decode_stream`).
-/
namespace SnesMusic.Brr

/-! ### Block after block -/

/-- Decodes blocks from number `index` on, up to the one marked as the last. The state is the place
for the beginning of the loop, which the first block with the loop mark fills. -/
def playBlocks (index : Nat) (history : History) : List Block → StateM (Option Nat) (List Int)
  | [] => pure []
  | block :: rest => do
    if block.header.loop then
      modify fun place => place.or (some (index * blockSamples))
    let (samples, after) := block.decode history
    if block.header.last then
      return samples
    let others ← playBlocks (index + 1) after rest
    return samples ++ others

/-- Decodes a byte string in one pass. The place for the beginning of the loop is cleared first. -/
def decodeInto (data : List UInt8) : StateM (Option Nat) (List Int16) := do
  set (none : Option Nat)
  let samples ← playBlocks 0 {} (blocks data)
  return samples.map Int16.ofInt

variable {index : Nat} {history : History} {block : Block} {rest list : List Block}

/-- The block marked as the last ends the pass. -/
theorem run_playBlocks_last (last : block.header.last = true) (place : Option Nat) :
    (playBlocks index history (block :: rest)).run place =
      ((block.decode history).1,
        place.or (if block.header.loop then some (index * blockSamples) else none)) := by
  rw [playBlocks]
  cases loop : block.header.loop
  · simp [last]
    rfl
  · simp [last]
    rfl

theorem run_playBlocks_cons (more : block.header.last = false) (place : Option Nat) :
    (playBlocks index history (block :: rest)).run place =
      let others := (playBlocks (index + 1) (block.decode history).2 rest).run
        (place.or (if block.header.loop then some (index * blockSamples) else none))
      ((block.decode history).1 ++ others.1, others.2) := by
  rw [playBlocks]
  cases loop : block.header.loop
  · simp [more]
    rfl
  · simp [more]
    rfl

/-- A pass over blocks gives their samples, and keeps what the place held already. -/
theorem run_playBlocks (index : Nat) (history : History) (list : List Block)
    (place : Option Nat) :
    (playBlocks index history list).run place =
      (decodeBlocks history (untilLast list),
        place.or (((untilLast list).findIdx? (·.header.loop)).map
          fun k => (index + k) * blockSamples)) := by
  induction list generalizing index history place with
  | nil =>
    rw [untilLast, List.findIdx?_nil, Option.map_none, Option.or_none]
    rfl
  | cons block rest ih =>
    rw [untilLast]
    cases last : block.header.last with
    | true =>
      simp only [run_playBlocks_last last, if_true, decodeBlocks, List.append_nil,
        List.findIdx?_singleton]
      cases block.header.loop <;> rfl
    | false =>
      have behind : ∀ k, (index + 1 + k) * blockSamples = (index + (k + 1)) * blockSamples := by
        intro k
        rw [Nat.add_assoc, Nat.add_comm 1]
      rw [run_playBlocks_cons last, ih, if_neg Bool.false_ne_true, decodeBlocks,
        List.findIdx?_cons]
      cases block.header.loop with
      | true => simp
      | false => simp [behind, Function.comp_def]

/-- One pass gives samples and loop, whatever the place for the loop held before. -/
theorem run_decodeInto (data : List UInt8) (place : Option Nat) :
    (decodeInto data).run place = ((decode data).pcm, (decode data).loopStart) := by
  have pass := run_playBlocks 0 {} (blocks data) none
  simp only [Nat.zero_add, Option.none_or] at pass
  show Prod.map (List.map Int16.ofInt) id ((playBlocks 0 {} (blocks data)).run none) = _
  rw [pass]
  rfl

/-! ### Blocks and their bytes -/

/-- A byte string is short or begins with the nine bytes of a block. -/
theorem short_or_block (data : List UInt8) :
    data.length < blockSize ∨
      ∃ byte eight rest, eight.length = 8 ∧ data = byte :: eight ++ rest := by
  rcases Nat.lt_or_ge data.length blockSize with short | long
  · exact Or.inl short
  · unfold blockSize at long
    match data, long with
    | byte :: behind, long =>
      rw [List.length_cons] at long
      refine Or.inr ⟨byte, behind.take 8, behind.drop 8, List.length_take_of_le (by omega), ?_⟩
      rw [List.cons_append, List.take_append_drop]

theorem length_block {byte : UInt8} {eight : List UInt8} (size : eight.length = 8) :
    (byte :: eight).length = blockSize := by
  rw [List.length_cons, size]
  rfl

/-- The first blocks are those of the first bytes. -/
theorem take_blocks (count : Nat) (data : List UInt8) :
    (blocks data).take count = blocks (data.take (count * blockSize)) := by
  induction count generalizing data with
  | zero => rw [Nat.zero_mul, List.take_zero, List.take_zero, blocks_of_short (by decide)]
  | succ count ih =>
    rcases short_or_block data with short | ⟨byte, eight, rest, size, rfl⟩
    · have part : (data.take ((count + 1) * blockSize)).length < blockSize := by
        rw [List.length_take]
        omega
      rw [blocks_of_short short, blocks_of_short part, List.take_nil]
    · have front : (byte :: eight ++ rest).take ((count + 1) * blockSize) =
          byte :: eight ++ rest.take (count * blockSize) := by
        rw [Nat.succ_mul, Nat.add_comm, ← length_block size, List.take_length_add_append]
      rw [front, blocks_cons byte size, blocks_cons byte size, List.take_succ_cons, ih]

theorem length_blocks (data : List UInt8) : (blocks data).length = data.length / blockSize := by
  induction count : data.length / blockSize generalizing data with
  | zero =>
    have short : data.length < blockSize := (Nat.div_eq_zero_iff_lt (by decide)).mp count
    rw [blocks_of_short short, List.length_nil]
  | succ n ih =>
    rcases short_or_block data with short | ⟨byte, eight, rest, size, rfl⟩
    · rw [Nat.div_eq_of_lt short] at count
      contradiction
    · have whole : (byte :: eight ++ rest).length = rest.length + blockSize := by
        rw [List.length_append, length_block size, Nat.add_comm]
      rw [whole, Nat.add_div_right _ (by decide), Nat.succ_inj] at count
      rw [blocks_cons byte size, List.length_cons, ih rest count]

/-- The header of a block is its first byte. -/
theorem header_blocks {data : List UInt8} {index : Nat} (inside : index < (blocks data).length) :
    data[index * blockSize]?.map Header.ofByte = some (blocks data)[index].header := by
  induction index generalizing data with
  | zero =>
    rcases short_or_block data with short | ⟨byte, eight, rest, size, rfl⟩
    · simp [blocks_of_short short] at inside
    · simp only [blocks_cons byte size]
      simp
  | succ index ih =>
    rcases short_or_block data with short | ⟨byte, eight, rest, size, rfl⟩
    · simp [blocks_of_short short] at inside
    · have behind : (byte :: eight ++ rest)[(index + 1) * blockSize]? =
          rest[index * blockSize]? := by
        rw [Nat.succ_mul, List.getElem?_append_right (by rw [length_block size]; omega),
          length_block size, Nat.add_sub_cancel]
      simp only [blocks_cons byte size, List.length_cons, Nat.add_lt_add_iff_right] at inside
      simp only [behind, blocks_cons byte size, List.getElem_cons_succ]
      exact ih inside

/-! ### The end of a stream -/

/-- The blocks that are heard are the first ones: up to the last one, or all. -/
theorem untilLast_eq_take (list : List Block) :
    untilLast list =
      list.take (((list.findIdx? (·.header.last)).map (· + 1)).getD list.length) := by
  induction list with
  | nil => rfl
  | cons block rest ih =>
    rw [untilLast, List.findIdx?_cons]
    cases block.header.last with
    | true => rfl
    | false =>
      rw [if_neg Bool.false_ne_true, ih]
      cases rest.findIdx? (·.header.last) <;> simp

theorem untilLast_untilLast (list : List Block) : untilLast (untilLast list) = untilLast list := by
  induction list with
  | nil => rfl
  | cons block rest ih =>
    rw [untilLast]
    cases last : block.header.last with
    | true => simp [untilLast, last]
    | false => simp [untilLast, last, ih]

/-- Number of blocks that are heard. -/
def heardBlocks (data : List UInt8) : Nat :=
  (((blocks data).findIdx? (·.header.last)).map (· + 1)).getD (blocks data).length

theorem heardBlocks_le (data : List UInt8) : heardBlocks data ≤ (blocks data).length := by
  unfold heardBlocks
  cases found : (blocks data).findIdx? (·.header.last) with
  | none => exact Nat.le_refl _
  | some index => exact (List.findIdx?_eq_some_iff_getElem.mp found).1

/-- The length of a stream is that of its blocks. -/
theorem length?_eq (data : List UInt8) :
    (length? data).getD (data.length / blockSize * blockSize) = heardBlocks data * blockSize := by
  unfold length? heardBlocks
  rw [length_blocks]
  cases (blocks data).findIdx? (·.header.last) <;> rfl

/-- The blocks that are heard are those of the first bytes. -/
theorem untilLast_blocks (data : List UInt8) :
    untilLast (blocks data) = blocks (data.take (heardBlocks data * blockSize)) := by
  rw [untilLast_eq_take, ← take_blocks]
  rfl

theorem decode_take (data : List UInt8) :
    decode (data.take (heardBlocks data * blockSize)) = decode data := by
  unfold decode
  rw [← untilLast_blocks, untilLast_untilLast]

theorem heardBlocks_mul_le (data : List UInt8) : heardBlocks data * blockSize ≤ data.length := by
  have few := heardBlocks_le data
  rw [length_blocks] at few
  exact (Nat.mul_le_mul_right _ few).trans (Nat.div_mul_le_self _ _)

/-- What stands in front of the bytes behind a stream is the stream. -/
theorem take_stream_append (data extra : List UInt8) :
    (data.take (heardBlocks data * blockSize) ++ extra).take (heardBlocks data * blockSize) =
      data.take (heardBlocks data * blockSize) :=
  List.take_left' (List.length_take_of_le (heardBlocks_mul_le data))

/-- A stream that has ended ends at the same block, whatever is put behind it. -/
theorem findIdx?_last_append {data : List UInt8} {index : Nat}
    (ends : (blocks data).findIdx? (·.header.last) = some index) (extra : List UInt8) :
    (blocks (data.take (heardBlocks data * blockSize) ++ extra)).findIdx? (·.header.last) =
      some index := by
  have count : heardBlocks data = index + 1 := by
    unfold heardBlocks
    rw [ends]
    rfl
  have front : ((blocks data).take (heardBlocks data)).findIdx? (·.header.last) = some index := by
    rw [List.findIdx?_take, ends, count]
    simp
  rw [take_blocks, ← take_stream_append data extra, ← take_blocks] at front
  exact (List.take_prefix _ _).findIdx?_eq_some front

/-- The block at `index` of a byte string carries the loop mark. -/
def LoopMarked (data : List UInt8) (index : Nat) : Prop :=
  ∃ byte, data[index * blockSize]? = some byte ∧ (Header.ofByte byte).loop = true

theorem loopMarked_iff {data : List UInt8} {index : Nat} (inside : index < (blocks data).length) :
    LoopMarked data index ↔ (blocks data)[index].header.loop = true := by
  have header := header_blocks inside
  unfold LoopMarked
  cases first : data[index * blockSize]? with
  | none => simp [first] at header
  | some byte =>
    rw [first, Option.map_some, Option.some.injEq] at header
    simp [← header]

/-- The loop begins with the first block that is marked so among those that are heard. -/
theorem loopStart_decode (data : List UInt8) (start : Nat) :
    (decode data).loopStart = some start ↔
      ∃ index, start = blockSamples * index ∧
        IsLeast {i | i < heardBlocks data ∧ LoopMarked data i} index := by
  have few := heardBlocks_le data
  have played : untilLast (blocks data) = (blocks data).take (heardBlocks data) :=
    untilLast_eq_take _
  have marked : ∀ i (h : i < ((blocks data).take (heardBlocks data)).length),
      ((blocks data).take (heardBlocks data))[i].header.loop = true ↔ LoopMarked data i := by
    intro i h
    rw [List.length_take] at h
    rw [List.getElem_take, loopMarked_iff (by omega)]
  have found : ∀ index, (untilLast (blocks data)).findIdx? (·.header.loop) = some index ↔
      IsLeast {i | i < heardBlocks data ∧ LoopMarked data i} index := by
    intro index
    rw [played, List.findIdx?_eq_some_iff_getElem]
    constructor
    · rintro ⟨inside, loop, none⟩
      have bound := inside
      rw [List.length_take] at bound
      refine ⟨⟨by omega, (marked index inside).mp loop⟩, ?_⟩
      rintro i ⟨heard, mark⟩
      by_contra before
      exact none i (by omega) ((marked i (by omega)).mpr mark)
    · rintro ⟨⟨heard, mark⟩, least⟩
      have inside : index < ((blocks data).take (heardBlocks data)).length := by
        rw [List.length_take]
        omega
      refine ⟨inside, (marked index inside).mpr mark, ?_⟩
      intro i before loop
      have bound := least ⟨by omega, (marked i (by omega)).mp loop⟩
      omega
  show ((untilLast (blocks data)).findIdx? (·.header.loop)).map (· * blockSamples) = some start ↔ _
  rw [Option.map_eq_some_iff]
  refine exists_congr fun index => ?_
  rw [found, and_comm, Nat.mul_comm, eq_comm]

/-- The samples and the loop of a byte string are those of the stream at its beginning, which is as
long as is told: sixteen samples for each of its blocks, and the loop at the first block with the
loop mark. One pass finds both, whatever the place for the loop held before, and what is put behind
a last block changes nothing. -/
theorem decode_stream (data : List UInt8) :
    let n := (length? data).getD (data.length / blockSize * blockSize)
    n ≤ data.length ∧
    (∀ place, (decodeInto data).run place = ((decode data).pcm, (decode data).loopStart)) ∧
    decode data = decode (data.take n) ∧
    (decode data).pcm.length = 16 * n / 9 ∧
    (∀ start, (decode data).loopStart = some start ↔
      ∃ index, start = 16 * index ∧ IsLeast {i | i < n / 9 ∧ LoopMarked data i} index) ∧
    ((length? data).isSome → ∀ extra, decode (data.take n ++ extra) = decode data ∧
      length? (data.take n ++ extra) = length? data) := by
  intro n
  have size : n = heardBlocks data * 9 := length?_eq data
  have count : n / 9 = heardBlocks data := by omega
  rw [count]
  refine ⟨?_, run_decodeInto data, ?_, ?_, loopStart_decode data, ?_⟩
  · rw [size]
    exact heardBlocks_mul_le data
  · rw [size]
    exact (decode_take data).symm
  · have heard : (untilLast (blocks data)).length = heardBlocks data := by
      rw [untilLast_eq_take]
      exact List.length_take_of_le (heardBlocks_le data)
    have samples : (decode data).pcm.length = blockSamples * heardBlocks data := by
      rw [decode, List.length_map, length_decodeBlocks (wellFormed_of_mem_untilLast data), heard]
    unfold blockSamples at samples
    omega
  · intro ends extra
    obtain ⟨length, found⟩ := Option.isSome_iff_exists.mp ends
    obtain ⟨index, last, -⟩ := Option.map_eq_some_iff.mp found
    have again := findIdx?_last_append last extra
    have same : heardBlocks (data.take (heardBlocks data * blockSize) ++ extra) =
        heardBlocks data := by
      unfold heardBlocks at again ⊢
      rw [again, last]
      rfl
    have size : n = heardBlocks data * blockSize := size
    rw [size]
    constructor
    · rw [← decode_take, same, take_stream_append, decode_take]
    · rw [length?, again, length?, last]

/-- A stream of two blocks, the last of which carries the loop mark as well. The mark of the block
behind it and the rest of a block are not heard. -/
theorem two_blocks_heard :
    let data : List UInt8 :=
      [0x00, 0x17, 0x8F, 0, 0, 0, 0, 0, 0] ++ [0x03, 0x11, 0, 0, 0, 0, 0, 0, 0] ++
        [0x02, 0x77, 0, 0, 0, 0, 0, 0, 0] ++ [0x02, 0x77]
    length? data = some 18 ∧ (decode data).pcm.length = 32 ∧ (decode data).loopStart = some 16 ∧
      ∀ extra, decode (data.take 18 ++ extra) = decode data := by
  intro data
  have length : length? data = some 18 := by decide
  obtain ⟨-, -, -, samples, loop, behind⟩ := decode_stream data
  rw [length, Option.getD_some] at samples loop behind
  refine ⟨length, samples, ?_, fun extra => (behind rfl extra).1⟩
  refine (loop 16).mpr ⟨1, rfl, ⟨by decide, 0x03, rfl, rfl⟩, ?_⟩
  rintro i ⟨-, byte, first, marked⟩
  by_contra before
  obtain rfl : i = 0 := by omega
  obtain rfl : 0x00 = byte := Option.some.inj first
  exact absurd marked (by decide)

end SnesMusic.Brr
