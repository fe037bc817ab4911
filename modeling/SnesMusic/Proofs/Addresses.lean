import Mathlib.Data.List.Chain
import SnesMusic.Proofs.Ranges.Uploads

/-!
# Addresses in an image

Where an address of the sound chip's memory is found in the image, whatever its bytes are. Main
statements: the blocks of a chain stand one behind the other from its beginning on, and the chain
ends where no block stands or at the limit (`laid_chainFrom`); and an address resolves to an offset
exactly when it resolves to bytes, which are those of the image from the offset to the end of the
first block that holds the address, the bank's own before the shared ones (`resolution_sound`).
-/
namespace SnesMusic

/-! ### Chains -/

namespace Block

/-- The block holds the addresses from its own on, as many as it has bytes. The last of them may lie
beyond the end of memory. -/
def Holds (b : Block) (address : UInt16) : Prop :=
  b.address.toNat ≤ address.toNat ∧ address.toNat < b.address.toNat + b.size

/-- The block is what its header in the image says. -/
structure Stands (image : Image) (b : Block) : Prop where
  size : 1 ≤ b.size ∧ b.size ≤ 0xFFFF
  header : image.readWord (b.offset - headerSize) = .ok (UInt16.ofNat b.size) ∧
    image.readWord (b.offset - 2) = .ok b.address
  inside : b.offset + b.size ≤ image.size
  bytes : b.bytes = image.slice b.offset b.size

end Block

/-- No block stands at an offset: the image ends before a size, the size is zero, or the image ends
before as many bytes. -/
def Image.LacksBlock (image : Image) (offset : Nat) : Prop :=
  image.size < offset + 2 ∨
    ∃ size, image.readWord offset = .ok size ∧
      (size = 0 ∨ image.size < offset + Block.headerSize + size.toNat)

/-- Where the last of some blocks ends, or where they would begin if there is none. -/
def blocksEnd (start : Nat) (blocks : List Block) : Nat :=
  (blocks.getLast?.map fun b => b.offset + b.size).getD start

/-- Blocks stand one behind the other from an offset on, up to where none stands or up to a
limit. -/
structure Laid (image : Image) (start limit : Nat) (blocks : List Block) : Prop where
  count : blocks.length ≤ limit
  stands : ∀ b ∈ blocks, b.Stands image
  first : ∀ b ∈ blocks.head?, b.offset = start + Block.headerSize
  next : blocks.IsChain fun b c => c.offset = b.offset + b.size + Block.headerSize
  stop : blocks.length = limit ∨ image.LacksBlock (blocksEnd start blocks)

variable {image : Image} {offset : Nat}

theorem blocksEnd_cons (start : Nat) (b : Block) (rest : List Block) :
    blocksEnd start (b :: rest) = blocksEnd (b.offset + b.size) rest := by
  rw [blocksEnd, blocksEnd, List.getLast?_cons]
  cases rest.getLast? <;> rfl

theorem Image.readWord_of_inside (inside : offset + 2 ≤ image.size) :
    ∃ w, image.readWord offset = .ok w := by
  rw [readWord, Image.fault?, if_neg (by omega), if_pos inside]
  exact ⟨_, rfl⟩

theorem Block.stands_of_read? {b : Block} (read : Block.read? image offset = some b) :
    b.Stands image := by
  obtain ⟨size, first, second, content, nonzero, place⟩ := Block.read?_eq_some_iff.mp read
  obtain ⟨-, inside, positive, small, -⟩ := Trapping.fits_of_read? read
  have length : b.size = size.toNat := Image.length_of_readBytes content
  have slice := (Image.readBytes_of_fault? (Image.fault?_of_readBytes content)).symm.trans content
  unfold UInt16.size at small
  refine ⟨⟨Nat.pos_of_ne_zero positive, by omega⟩, ⟨?_, ?_⟩, inside, ?_⟩
  · rw [place, Nat.add_sub_cancel, first, length, UInt16.ofNat_toNat]
  · rw [place, headerSize, show offset + 4 - 2 = offset + 2 by omega, second]
  · rw [place, length, Except.ok.inj slice]

theorem Block.read?_eq_none_iff : Block.read? image offset = none ↔ image.LacksBlock offset := by
  constructor
  · intro missing
    by_contra there
    obtain ⟨long, told⟩ := not_or.mp there
    obtain ⟨size, first⟩ := Image.readWord_of_inside (Nat.not_lt.mp long)
    obtain ⟨nonzero, reaches⟩ := not_or.mp fun short => told ⟨size, first, short⟩
    unfold headerSize at reaches
    obtain ⟨address, second⟩ : ∃ w, image.readWord (offset + 2) = .ok w :=
      Image.readWord_of_inside (by omega)
    have fine : image.fault? (offset + headerSize) size.toNat = none := by
      rw [Image.fault?, headerSize, if_neg (by omega), if_pos (by omega)]
    have read : Block.read? image offset = some {
        offset := offset + headerSize
        address
        bytes := image.slice (offset + headerSize) size.toNat } :=
      Block.read?_eq_some_iff.mpr ⟨size, first, second, Image.readBytes_of_fault? fine, nonzero,
        rfl⟩
    rw [missing] at read
    contradiction
  · intro lacks
    cases read : Block.read? image offset with
    | none => rfl
    | some b =>
      obtain ⟨place, inside, positive, -, size, first, length⟩ := Trapping.fits_of_read? read
      rcases lacks with short | ⟨size', told, zero | short⟩
      · omega
      · rw [first, Except.ok.injEq] at told
        rw [told, zero] at length
        exact absurd length.symm positive
      · rw [first, Except.ok.injEq] at told
        rw [← told, length, Block.headerSize] at short
        omega

/-- A chain is laid from its beginning on. -/
theorem laid_chainFrom (image : Image) (offset limit : Nat) :
    Laid image offset limit (chainFrom image offset limit) := by
  induction limit generalizing offset with
  | zero => exact ⟨Nat.le_refl _, by simp [chainFrom], by simp [chainFrom], .nil, .inl rfl⟩
  | succ limit ih =>
    rw [chainFrom]
    cases read : Block.read? image offset with
    | none =>
      exact ⟨Nat.zero_le _, by simp, by simp, .nil, .inr (Block.read?_eq_none_iff.mp read)⟩
    | some b =>
      have later := ih (b.offset + b.size)
      refine ⟨Nat.succ_le_succ later.count, ?_, ?_, ?_, ?_⟩
      · exact List.forall_mem_cons.mpr ⟨Block.stands_of_read? read, later.stands⟩
      · rintro first ⟨⟩
        exact Block.offset_of_read? read
      · exact List.isChain_cons.mpr ⟨later.first, later.next⟩
      · rw [blocksEnd_cons, List.length_cons]
        exact later.stop.imp_left (congrArg Nat.succ)

/-! ### Look-up -/

/-- The first of some blocks that holds an address. -/
def FirstHolder (blocks : List Block) (address : UInt16) (b : Block) : Prop :=
  ∃ front behind, blocks = front ++ b :: behind ∧ b.Holds address ∧
    ∀ other ∈ front, ¬other.Holds address

/-- The block that uploads an address: the first that holds it of the bank's own, or of the shared
ones where none of the bank's own does. -/
def Uploader (image : Image) (bank : UploadBank) (address : UInt16) (b : Block) : Prop :=
  FirstHolder (chain image bank) address b ∨
    (∀ own ∈ chain image bank, ¬own.Holds address) ∧ FirstHolder (chain image .common) address b

variable {bank : UploadBank} {address : UInt16} {b : Block}

theorem Block.isSome_from?_iff : (b.from? address).isSome = true ↔ b.Holds address := by
  rw [Trapping.isSome_from?, decide_eq_true_iff, Holds]

theorem find?_eq_some_iff_firstHolder {blocks : List Block} :
    blocks.find? (·.from? address |>.isSome) = some b ↔ FirstHolder blocks address b := by
  simp only [List.find?_eq_some_iff_append, Bool.not_eq_true', Bool.eq_false_iff, ne_eq,
    Block.isSome_from?_iff, FirstHolder]
  constructor
  · rintro ⟨holds, front, behind, split, none⟩
    exact ⟨front, behind, split, holds, none⟩
  · rintro ⟨front, behind, split, holds, none⟩
    exact ⟨holds, front, behind, split, none⟩

theorem find?_eq_none_iff_holds {blocks : List Block} :
    blocks.find? (·.from? address |>.isSome) = none ↔ ∀ b ∈ blocks, ¬b.Holds address := by
  simp only [List.find?_eq_none, Block.isSome_from?_iff]

theorem exists_firstHolder {blocks : List Block} (listed : b ∈ blocks) (holds : b.Holds address) :
    ∃ first, FirstHolder blocks address first := by
  simp only [← find?_eq_some_iff_firstHolder, ← Option.ne_none_iff_exists', ne_eq,
    find?_eq_none_iff_holds]
  exact fun none => none b listed holds

/-- The block that is found is the one that uploads the address. -/
theorem Uploads.find?_eq_some_iff :
    (Uploads.ofImage image bank).blocks.find? (·.from? address |>.isSome) = some b ↔
      Uploader image bank address b := by
  rw [ofImage, List.find?_append, Uploader, Option.or_eq_some_iff, find?_eq_some_iff_firstHolder,
    find?_eq_none_iff_holds]
  refine or_congr_right (and_congr_right fun none => ?_)
  by_cases shared : bank = .common
  · subst shared
    rw [if_pos rfl]
    refine ⟨fun found => by simp at found, ?_⟩
    rintro ⟨front, behind, split, holds, -⟩
    exact absurd holds (none b (by rw [split]; simp))
  · rw [if_neg shared, find?_eq_some_iff_firstHolder]

theorem Block.locate_bounds (holds : b.Holds address) :
    b.locate address + b.address.toNat = b.offset + address.toNat ∧
      b.locate address < b.offset + b.size := by
  obtain ⟨low, high⟩ := holds
  rw [locate]
  omega

/-- A block that holds an address gives its own bytes from there on, which are those of the image
up to the end of the block. -/
theorem Block.from?_of_holds (stands : b.Stands image) (holds : b.Holds address) :
    b.from? address = some (image.slice (b.locate address)
      (b.offset + b.size - b.locate address)) := by
  obtain ⟨suffix, found⟩ := Option.isSome_iff_exists.mp (isSome_from?_iff.mpr holds)
  obtain ⟨-, -, rest⟩ := Trapping.suffix_of_from? found
  obtain ⟨-, inner⟩ := locate_bounds holds
  have upToEnd : b.locate address + (b.offset + b.size - b.locate address) = b.offset + b.size := by
    omega
  rw [found, rest, stands.bytes, Trapping.slice_eq_drop, Trapping.slice_eq_drop, upToEnd,
    List.drop_drop, locate]

/-- An address has one uploader at most. -/
theorem Uploader.unique {c : Block} (first : Uploader image bank address b)
    (second : Uploader image bank address c) : c = b :=
  Option.some.inj <|
    (Uploads.find?_eq_some_iff.mpr second).symm.trans (Uploads.find?_eq_some_iff.mpr first)

theorem Uploader.stands (uploaded : Uploader image bank address b) :
    b.Stands image ∧ b.Holds address := by
  have listed : ∀ {bank : UploadBank}, FirstHolder (chain image bank) address b →
      b.Stands image ∧ b.Holds address := by
    rintro bank ⟨front, behind, split, holds, -⟩
    exact ⟨(laid_chainFrom image _ maxBlocks).stands b (by rw [← chain, split]; simp), holds⟩
  rcases uploaded with own | ⟨-, shared⟩
  · exact listed own
  · exact listed shared

namespace Uploads

theorem from?_eq_some_iff {data : List UInt8} :
    (ofImage image bank).from? address = some data ↔ ∃ b, Uploader image bank address b ∧
      data = image.slice (b.locate address) (b.offset + b.size - b.locate address) := by
  rw [Trapping.from?_of_find, Option.bind_eq_some_iff]
  refine exists_congr fun b => ?_
  rw [find?_eq_some_iff]
  refine and_congr_right fun uploaded => ?_
  obtain ⟨stands, holds⟩ := uploaded.stands
  rw [Block.from?_of_holds stands holds, Option.some.injEq, eq_comm]

theorem offset?_eq_some_iff {place : Nat} :
    (ofImage image bank).offset? address = some place ↔
      ∃ b, Uploader image bank address b ∧ place = b.locate address := by
  rw [offset?, Option.map_eq_some_iff]
  refine exists_congr fun b => ?_
  rw [find?_eq_some_iff, eq_comm]

/-- Some block uploads an address just when one of the two chains holds it. -/
theorem exists_uploader_iff : (∃ b, Uploader image bank address b) ↔
    ∃ b ∈ chain image bank ++ chain image .common, b.Holds address := by
  constructor
  · rintro ⟨b, ⟨front, behind, split, holds, -⟩ | ⟨-, front, behind, split, holds, -⟩⟩
    · exact ⟨b, List.mem_append_left _ (by rw [split]; simp), holds⟩
    · exact ⟨b, List.mem_append_right _ (by rw [split]; simp), holds⟩
  · rintro ⟨b, listed, holds⟩
    by_cases own : ∃ c ∈ chain image bank, c.Holds address
    · obtain ⟨c, listed, holds⟩ := own
      obtain ⟨first, holder⟩ := exists_firstHolder listed holds
      exact ⟨first, .inl holder⟩
    · have none : ∀ c ∈ chain image bank, ¬c.Holds address :=
        fun c listed holds => own ⟨c, listed, holds⟩
      rcases List.mem_append.mp listed with here | shared
      · exact absurd holds (none b here)
      · obtain ⟨first, holder⟩ := exists_firstHolder shared holds
        exact ⟨first, .inr ⟨none, holder⟩⟩

/-- The chain of a bank stands in the image, whatever its bytes are. An address has an offset
exactly when it has bytes, which is when a block of the bank's chain or of the shared one holds it;
the bytes are not empty and are those of the image from the offset to the end of the block that
uploads the address. -/
theorem resolution_sound (image : Image) (bank : UploadBank) (address : UInt16) :
    let u := ofImage image bank
    Laid image (image.locate bank.offset) maxBlocks (chain image bank) ∧
      ((∃ offset, u.offset? address = some offset) ↔ ∃ data, u.from? address = some data) ∧
      ((∃ data, u.from? address = some data) ↔
        ∃ b ∈ chain image bank ++ chain image .common, b.Holds address) ∧
      ∀ offset data, u.offset? address = some offset → u.from? address = some data →
        data ≠ [] ∧ ∃ b, Uploader image bank address b ∧
          offset + b.address.toNat = b.offset + address.toNat ∧ offset < b.offset + b.size ∧
          data = image.slice offset (b.offset + b.size - offset) := by
  intro u
  have offsets : (∃ offset, u.offset? address = some offset) ↔
      ∃ b, Uploader image bank address b := by
    simp only [u, offset?_eq_some_iff]
    exact ⟨fun ⟨_, b, uploaded, _⟩ => ⟨b, uploaded⟩, fun ⟨b, uploaded⟩ => ⟨_, b, uploaded, rfl⟩⟩
  have bytes : (∃ data, u.from? address = some data) ↔ ∃ b, Uploader image bank address b := by
    simp only [u, from?_eq_some_iff]
    exact ⟨fun ⟨_, b, uploaded, _⟩ => ⟨b, uploaded⟩, fun ⟨b, uploaded⟩ => ⟨_, b, uploaded, rfl⟩⟩
  refine ⟨laid_chainFrom image _ _, offsets.trans bytes.symm, bytes.trans exists_uploader_iff, ?_⟩
  intro offset data place found
  obtain ⟨b, uploaded, rfl⟩ := offset?_eq_some_iff.mp place
  obtain ⟨c, again, rfl⟩ := from?_eq_some_iff.mp found
  obtain rfl := Uploader.unique uploaded again
  obtain ⟨stands, holds⟩ := uploaded.stands
  obtain ⟨moved, inner⟩ := Block.locate_bounds holds
  refine ⟨?_, c, uploaded, moved, inner, rfl⟩
  have length : (image.slice (c.locate address) (c.offset + c.size - c.locate address)).length =
      c.offset + c.size - c.locate address := by
    have inside := stands.inside
    unfold Image.size at inside
    rw [Image.slice, Array.length_toList, Array.size_extract]
    omega
  exact List.ne_nil_of_length_pos (by omega)

end Uploads

/-- Two blocks hold the last address of memory: a shared one, and one of the dungeons that reaches
over the end. -/
def overlapping : List SingleBlock :=
  [{ bank := .dungeon, address := 0xFFFE, payload := [1, 2, 3, 4] },
    { bank := .common, address := 0xFFF0, payload := List.replicate 0x10 9 }]

theorem uploads_overlapping : Uploads.ofImage (Image.ofBlocks overlapping) .dungeon =
    { bank := .dungeon, blocks := overlapping.map SingleBlock.placed } := by
  rw [Image.uploads_ofBlocks (by decide) (by decide)]
  rfl

/-- The last address of memory resolves in the dungeons' own block. -/
theorem resolution_sound_overlapping :
    let u := Uploads.ofImage (Image.ofBlocks overlapping) .dungeon
    u.offset? 0xFFFF = some 0xD8005 ∧ u.from? 0xFFFF = some [2, 3, 4] ∧
      ∃ b, Uploader (Image.ofBlocks overlapping) .dungeon 0xFFFF b ∧
        0xD8005 + b.address.toNat = b.offset + 0xFFFF := by
  intro u
  have place : u.offset? 0xFFFF = some 0xD8005 := by
    simp only [u, uploads_overlapping]
    decide
  have found : u.from? 0xFFFF = some [2, 3, 4] := by
    simp only [u, uploads_overlapping]
    decide
  obtain ⟨-, -, -, sound⟩ :=
    Uploads.resolution_sound (Image.ofBlocks overlapping) .dungeon 0xFFFF
  obtain ⟨-, b, uploaded, moved, -⟩ := sound _ _ place found
  exact ⟨place, found, b, uploaded, moved⟩

end SnesMusic
