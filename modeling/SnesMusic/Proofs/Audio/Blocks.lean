import Mathlib.Tactic
import SnesMusic.Audio.Brr

/-!
# Blocks of samples

What a block is made of and what its nibbles decode to: headers and packed nibbles are read back as
they were written, a block of eight data bytes has sixteen nibbles, and the decoder's history after
a block is that of its samples. Main statements: `Header.ofByte_toByte`, `nibbles_pack`,
`decodeNibbles_history` and `toInt_pcm` (the samples of a decoded stream fit sixteen bits).
-/
namespace SnesMusic.Brr

theorem Header.ofByte_toByte {header : Header} (shift : header.shift < 16)
    (filter : header.filter < 4) : Header.ofByte header.toByte = header := by
  obtain ⟨s, f, loop, last⟩ := header
  cases loop <;> cases last <;>
    simp only [ofByte, toByte, marks, UInt8.toNat_ofNat', mk.injEq, beq_iff_eq, beq_eq_false_iff_ne,
      Bool.false_eq_true, if_true, if_false] at * <;>
    omega

theorem blocks_cons (byte : UInt8) {data : List UInt8} (size : data.length = 8)
    (rest : List UInt8) :
    blocks (byte :: data ++ rest) = { header := Header.ofByte byte, data } :: blocks rest := by
  match data, size with
  | [_, _, _, _, _, _, _, _], _ => rfl

/-- Fewer bytes than a block has make none. -/
theorem blocks_of_short {data : List UInt8} (short : data.length < blockSize) :
    blocks data = [] := by
  match data, short with
  | [], _ | [_], _ | [_, _], _ | [_, _, _], _ | [_, _, _, _], _ | [_, _, _, _, _], _
  | [_, _, _, _, _, _], _ | [_, _, _, _, _, _, _], _ | [_, _, _, _, _, _, _, _], _ => rfl

/-- A block as it is read from nine bytes. -/
structure Block.WellFormed (block : Block) : Prop where
  shift : block.header.shift < 16
  filter : block.header.filter < 4
  size : block.data.length = 8

theorem wellFormed_of_mem_blocks (data : List UInt8) : ∀ block ∈ blocks data, block.WellFormed := by
  fun_induction blocks data with
  | case1 byte a b c d e f g i rest ih =>
    intro block member
    rcases List.mem_cons.mp member with rfl | later
    · have bound := byte.toNat_lt
      exact ⟨by simp only [Header.ofByte]; omega, by simp only [Header.ofByte]; omega, rfl⟩
    · exact ih block later
  | case2 data short => simp

theorem mem_of_mem_untilLast {block : Block} {list : List Block} (member : block ∈ untilLast list) :
    block ∈ list := by
  induction list with
  | nil => exact member
  | cons first rest ih =>
    rw [untilLast] at member
    split at member
    · rw [List.mem_singleton.mp member]
      exact List.mem_cons_self
    · rcases List.mem_cons.mp member with rfl | later
      · exact List.mem_cons_self
      · exact List.mem_cons_of_mem _ (ih later)

theorem wellFormed_of_mem_untilLast (data : List UInt8) :
    ∀ block ∈ untilLast (blocks data), block.WellFormed :=
  fun block member => wellFormed_of_mem_blocks data block (mem_of_mem_untilLast member)

/-! ### Nibbles -/

/-- What four bits with a sign hold. -/
def IsNibble (value : Int) : Prop := -8 ≤ value ∧ value ≤ 7

instance (value : Int) : Decidable (IsNibble value) := inferInstanceAs (Decidable (_ ∧ _))

theorem isNibble_signed {nibble : Nat} (bound : nibble < 16) : IsNibble (signed nibble) := by
  rw [IsNibble, signed]
  split <;> omega

theorem isNibble_of_mem_nibbles {data : List UInt8} {nibble : Int}
    (member : nibble ∈ nibbles data) : IsNibble nibble := by
  obtain ⟨byte, -, half⟩ := List.mem_flatMap.mp member
  have bound := byte.toNat_lt
  rcases List.mem_pair.mp half with rfl | rfl
  · exact isNibble_signed (by omega)
  · exact isNibble_signed (by omega)

theorem length_nibbles (data : List UInt8) : (nibbles data).length = 2 * data.length := by
  induction data with
  | nil => rfl
  | cons byte rest ih =>
    simp only [nibbles, List.flatMap_cons, List.length_append, List.length_cons,
      List.length_nil] at ih ⊢
    omega

/-- Both halves of a byte are read back as the nibbles that were packed. -/
theorem halves_pack {high low : Int} (highFits : IsNibble high) (lowFits : IsNibble low) :
    let byte := UInt8.ofNat (high % 16 * 16 + low % 16).toNat
    signed (byte.toNat / 16) = high ∧ signed (byte.toNat % 16) = low := by
  obtain ⟨highLower, highUpper⟩ := highFits
  obtain ⟨lowLower, lowUpper⟩ := lowFits
  simp only [UInt8.toNat_ofNat', signed]
  constructor <;> split <;> omega

/-- An even number of nibbles survives packing. -/
theorem nibbles_pack {count : Nat} {list : List Int} (even : list.length = 2 * count)
    (fit : ∀ nibble ∈ list, IsNibble nibble) :
    nibbles (pack list) = list ∧ (pack list).length = count := by
  induction count generalizing list with
  | zero => simp [List.length_eq_zero_iff.mp even, pack, nibbles]
  | succ count ih =>
    match list, even, fit with
    | high :: low :: rest, even, fit =>
      have tail : nibbles (pack rest) = rest ∧ (pack rest).length = count := by
        refine ih ?_ fun nibble member => fit nibble (by simp [member])
        simp only [List.length_cons] at even
        omega
      obtain ⟨highRead, lowRead⟩ := halves_pack (fit high (by simp)) (fit low (by simp))
      constructor
      · simp only [pack, nibbles, List.flatMap_cons, highRead, lowRead]
        rw [← nibbles, tail.1]
        rfl
      · rw [pack, List.length_cons, tail.2]

/-! ### Samples -/

/-- What sixteen bits with a sign hold. -/
def IsSample (value : Int) : Prop := -32768 ≤ value ∧ value ≤ 32767

instance (value : Int) : Decidable (IsSample value) := inferInstanceAs (Decidable (_ ∧ _))

theorem isSample_clamp (value : Int) : IsSample (clamp value) := by
  rw [IsSample, clamp]
  omega

theorem length_decodeNibbles (shift filter : Nat) (history : History) (list : List Int) :
    (decodeNibbles shift filter history list).1.length = list.length := by
  induction list generalizing history with
  | nil => rfl
  | cons nibble rest ih => exact congrArg (· + 1) (ih _)

theorem isSample_of_mem_decodeNibbles {shift filter : Nat} {history : History} {list : List Int} :
    ∀ sample ∈ (decodeNibbles shift filter history list).1, IsSample sample := by
  induction list generalizing history with
  | nil => simp [decodeNibbles]
  | cons nibble rest ih =>
    intro sample member
    rcases List.mem_cons.mp member with rfl | later
    · exact isSample_clamp _
    · exact ih sample later

/-- The history after nibbles depends on their samples only, not on the scale and the filter that
gave them. -/
theorem decodeNibbles_history (shift filter : Nat) (history : History) (list : List Int) :
    (decodeNibbles shift filter history list).2 =
      (decodeNibbles shift filter history list).1.foldl History.push history := by
  induction list generalizing history with
  | nil => rfl
  | cons nibble rest ih => exact ih _

theorem isSample_of_mem_decodeBlocks {history : History} {list : List Block} :
    ∀ sample ∈ decodeBlocks history list, IsSample sample := by
  induction list generalizing history with
  | nil => simp [decodeBlocks]
  | cons block rest ih =>
    intro sample member
    rcases List.mem_append.mp member with inside | later
    · exact isSample_of_mem_decodeNibbles sample inside
    · exact ih sample later

theorem Block.WellFormed.length_decode {block : Block} (formed : block.WellFormed)
    (history : History) : (block.decode history).1.length = blockSamples := by
  rw [decode, length_decodeNibbles, length_nibbles, formed.size]
  rfl

theorem length_decodeBlocks {history : History} {list : List Block}
    (formed : ∀ block ∈ list, block.WellFormed) :
    (decodeBlocks history list).length = blockSamples * list.length := by
  induction list generalizing history with
  | nil => rfl
  | cons block rest ih =>
    have first := (formed block List.mem_cons_self).length_decode history
    have others := @ih (block.decode history).2 fun b member =>
      formed b (List.mem_cons_of_mem _ member)
    rw [decodeBlocks, List.length_append, first, others, List.length_cons, Nat.mul_succ,
      Nat.add_comm]

/-- Narrowing samples to sixteen bits loses nothing. -/
theorem map_toInt_ofInt {samples : List Int} (fit : ∀ sample ∈ samples, IsSample sample) :
    (samples.map Int16.ofInt).map Int16.toInt = samples := by
  rw [List.map_map]
  refine (List.map_congr_left fun sample member => ?_).trans (List.map_id samples)
  obtain ⟨lower, upper⟩ := fit sample member
  exact Int16.toInt_ofInt_of_le (by omega) (by omega)

theorem toInt_pcm (data : List UInt8) :
    (decode data).pcm.map Int16.toInt = decodeBlocks {} (untilLast (blocks data)) :=
  map_toInt_ofInt isSample_of_mem_decodeBlocks

end SnesMusic.Brr
