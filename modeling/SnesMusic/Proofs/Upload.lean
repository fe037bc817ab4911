import SnesMusic.Proofs.Image
import SnesMusic.Upload

/-!
# Blocks in place

Main statements: a block is read from where its encoding stands (`read?_of_has`), it is the first of
a chain that begins there (`chainFrom_of_has`) and the only one where an empty block follows
(`chainFrom_of_has_end`), and a chain depends on no bytes but those up to its end
(`chainFrom_congr`).
-/
namespace SnesMusic

open LittleEndian

/-! ### Single blocks -/

namespace Block

variable {image : Image} {offset : Nat} {address : UInt16} {payload : List UInt8}

theorem length_encode (address : UInt16) (payload : List UInt8) :
    (encode address payload).length = headerSize + payload.length := by
  rw [encode, List.length_append, List.length_append, length_bytes, length_bytes, headerSize]

theorem read?_of_has (h : image.Has offset (encode address payload)) (ne : payload ≠ [])
    (small : payload.length < UInt16.size) :
    read? image offset = some { offset := offset + headerSize, address, bytes := payload } := by
  have positive := List.length_pos_iff.mpr ne
  have size : (UInt16.ofNat payload.length).toNat = payload.length := by
    rw [UInt16.toNat_ofNat', Nat.mod_eq_of_lt small]
  have nonzero : UInt16.ofNat payload.length ≠ 0 := by
    intro zero
    simp only [zero, UInt16.toNat_zero] at size
    omega
  have first : image.readWord offset = .ok (UInt16.ofNat payload.length) :=
    Image.readWord_of_has_bytes h.left.left
  have second : image.readWord (offset + 2) = .ok address :=
    Image.readWord_of_has_bytes h.left.right
  have body : image.readBytes (offset + headerSize) payload.length = .ok payload :=
    Image.readBytes_of_has h.right ne
  simp only [read?, first, second, size, body, Except.toOption, nonzero, Option.bind_eq_bind,
    Option.bind_some, if_false]

/-- A size of zero is no block. -/
theorem read?_of_zero (h : image.Has offset [0, 0]) : read? image offset = none := by
  have first : image.readWord offset = .ok 0 := Image.readWord_of_has h
  simp [read?, first, Except.toOption]

/-- The parts of a block that is read. -/
theorem read?_eq_some_iff {b : Block} :
    read? image offset = some b ↔
      ∃ size, image.readWord offset = .ok size ∧ image.readWord (offset + 2) = .ok b.address ∧
        image.readBytes (offset + headerSize) size.toNat = .ok b.bytes ∧ size ≠ 0 ∧
        b.offset = offset + headerSize := by
  cases size : image.readWord offset with
  | error e => simp [read?, size, Except.toOption]
  | ok n =>
    cases address : image.readWord (offset + 2) with
    | error e => simp [read?, size, address, Except.toOption]
    | ok a =>
      cases bytes : image.readBytes (offset + headerSize) n.toNat with
      | error e => simp [read?, size, address, bytes, Except.toOption]
      | ok payload =>
        obtain ⟨place, target, content⟩ := b
        simp only [read?, size, address, bytes, Except.toOption, Option.bind_eq_bind,
          Option.bind_some, Except.ok.injEq, exists_eq_left']
        by_cases zero : n = 0
        · simp [zero]
        · simp only [zero, if_false, Option.some.injEq, mk.injEq, ne_eq, not_false_eq_true,
            true_and]
          constructor
          · rintro ⟨rfl, rfl, rfl⟩
            exact ⟨rfl, rfl, rfl⟩
          · rintro ⟨rfl, rfl, rfl⟩
            exact ⟨rfl, rfl, rfl⟩

theorem offset_of_read? {b : Block} (h : read? image offset = some b) :
    b.offset = offset + headerSize := by
  obtain ⟨-, -, -, -, -, place⟩ := read?_eq_some_iff.mp h
  exact place

/-- A block depends on its own bytes only. -/
theorem read?_congr {other : Image} {b : Block} (h : read? image offset = some b)
    (agree : image.Agree other offset (b.offset + b.size)) : read? other offset = some b := by
  obtain ⟨size, first, second, bytes, nonzero, place⟩ := read?_eq_some_iff.mp h
  have length : b.size = size.toNat := Image.length_of_readBytes bytes
  rw [place, length, headerSize] at agree
  refine read?_eq_some_iff.mpr ⟨size, ?_, ?_, ?_, nonzero, place⟩
  · rw [← first, Image.readWord_congr agree (Nat.le_refl _) (by omega)]
  · rw [← second, Image.readWord_congr agree (by omega) (by omega)]
  · rw [← bytes, Image.readBytes_congr agree (by omega) (by unfold headerSize; omega)]

/-- Where there is no block, the header and the size of the image tell. -/
theorem read?_eq_none_congr {other : Image} (h : read? image offset = none)
    (agree : image.Agree other offset (offset + headerSize)) : read? other offset = none := by
  cases read : read? other offset with
  | none => rfl
  | some b =>
    obtain ⟨size, first, second, bytes, nonzero, place⟩ := read?_eq_some_iff.mp read
    have fine := Image.fault?_of_readBytes bytes
    rw [← agree.fault?] at fine
    have here : read? image offset =
        some { b with bytes := image.slice (offset + headerSize) size.toNat } := by
      refine read?_eq_some_iff.mpr
        ⟨size, ?_, ?_, Image.readBytes_of_fault? fine, nonzero, place⟩
      · rw [← first, Image.readWord_congr agree (Nat.le_refl _) (by unfold headerSize; omega)]
      · rw [← second, Image.readWord_congr agree (by omega) (by unfold headerSize; omega)]
    rw [h] at here
    exact absurd here (by simp)

end Block

/-! ### Chains -/

/-- Where the part of an image ends that a chain from `offset` on depends on. -/
def chainStop (image : Image) (offset : Nat) : Nat → Nat
  | 0 => offset
  | limit + 1 =>
    match Block.read? image offset with
    | none => offset + Block.headerSize
    | some b => chainStop image (b.offset + b.size) limit

theorem le_chainStop (image : Image) (offset limit : Nat) :
    offset ≤ chainStop image offset limit := by
  induction limit generalizing offset with
  | zero => exact Nat.le_refl _
  | succ limit ih =>
    unfold chainStop
    cases read : Block.read? image offset with
    | none => exact Nat.le_add_right _ _
    | some b =>
      have place := Block.offset_of_read? read
      have later := ih (b.offset + b.size)
      simp only
      omega

/-- The header at the beginning counts. -/
theorem headerSize_le_chainStop (image : Image) (offset limit : Nat) :
    offset + Block.headerSize ≤ chainStop image offset (limit + 1) := by
  unfold chainStop
  cases read : Block.read? image offset with
  | none => exact Nat.le_refl _
  | some b =>
    have place := Block.offset_of_read? read
    have later := le_chainStop image (b.offset + b.size) limit
    simp only
    omega

variable {image other : Image} {offset : Nat} {address : UInt16} {payload : List UInt8}

theorem chainFrom_congr {limit : Nat}
    (agree : image.Agree other offset (chainStop image offset limit)) :
    chainFrom other offset limit = chainFrom image offset limit := by
  induction limit generalizing offset with
  | zero => rfl
  | succ limit ih =>
    rw [chainFrom, chainFrom]
    unfold chainStop at agree
    cases read : Block.read? image offset with
    | none =>
      rw [read] at agree
      rw [Block.read?_eq_none_congr read agree]
    | some b =>
      rw [read] at agree
      have place := Block.offset_of_read? read
      have later := le_chainStop image (b.offset + b.size) limit
      simp only at agree
      rw [Block.read?_congr read (agree.mono (Nat.le_refl _) later)]
      simp only
      rw [ih (agree.mono (by omega) (Nat.le_refl _))]

/-- A chain begins with the block that stands at its beginning. -/
theorem chainFrom_of_has {limit : Nat} (h : image.Has offset (Block.encode address payload))
    (ne : payload ≠ []) (small : payload.length < UInt16.size) :
    chainFrom image offset (limit + 1) =
      { offset := offset + Block.headerSize, address, bytes := payload } ::
        chainFrom image (offset + Block.headerSize + payload.length) limit := by
  rw [chainFrom, Block.read?_of_has h ne small]
  rfl

/-- Where an empty block follows. -/
theorem read?_of_has_end (h : image.Has offset (Block.encode address payload ++ [0, 0, 0, 0])) :
    Block.read? image (offset + Block.headerSize + payload.length) = none := by
  have behind := h.right
  rw [Block.length_encode, ← Nat.add_assoc] at behind
  have halves : image.Has (offset + Block.headerSize + payload.length) ([0, 0] ++ [0, 0]) :=
    behind
  exact Block.read?_of_zero halves.left

/-- An empty block ends a chain. -/
theorem chainFrom_of_has_end {limit : Nat}
    (h : image.Has offset (Block.encode address payload ++ [0, 0, 0, 0])) (ne : payload ≠ [])
    (small : payload.length < UInt16.size) :
    chainFrom image offset (limit + 2) =
      [{ offset := offset + Block.headerSize, address, bytes := payload }] := by
  rw [chainFrom_of_has h.left ne small, chainFrom, read?_of_has_end h]

/-- A chain of one block ends with the empty block. -/
theorem chainStop_of_has_end {limit : Nat}
    (h : image.Has offset (Block.encode address payload ++ [0, 0, 0, 0])) (ne : payload ≠ [])
    (small : payload.length < UInt16.size) :
    chainStop image offset (limit + 2) =
      offset + Block.headerSize + payload.length + Block.headerSize := by
  rw [chainStop, Block.read?_of_has h.left ne small]
  simp only [Block.size]
  rw [chainStop, read?_of_has_end h]

/-- The bytes of a chain's blocks stand in the image. -/
theorem has_of_mem_chainFrom {limit : Nat} {b : Block} (listed : b ∈ chainFrom image offset limit) :
    image.Has b.offset b.bytes := by
  induction limit generalizing offset with
  | zero => simp [chainFrom] at listed
  | succ limit ih =>
    rw [chainFrom] at listed
    cases read : Block.read? image offset with
    | none => simp [read] at listed
    | some first =>
      rw [read, List.mem_cons] at listed
      rcases listed with rfl | later
      · obtain ⟨size, -, -, bytes, -, place⟩ := Block.read?_eq_some_iff.mp read
        rw [place]
        exact Image.has_of_readBytes bytes
      · exact ih later

theorem Block.has_of_from? {b : Block} {bytes : List UInt8} (stands : image.Has b.offset b.bytes)
    (found : b.from? address = some bytes) : image.Has (b.locate address) bytes := by
  unfold Block.from? at found
  split at found
  · split at found
    · simp at found
    · rename_i _ suffix
      rw [← Option.some.inj found]
      rw [← List.take_append_drop (address.toNat - b.address.toNat) b.bytes] at stands
      have behind := stands.right
      by_cases inside : address.toNat - b.address.toNat ≤ b.bytes.length
      · rwa [List.length_take_of_le inside] at behind
      · exact absurd (List.drop_eq_nil_of_le (by omega)) suffix
  · simp at found

/-- The block that holds an address gives its bytes and its offset. -/
theorem Uploads.offset?_of_from? {u : Uploads} {bytes : List UInt8}
    (found : u.from? address = some bytes) :
    ∃ b ∈ u.blocks, b.from? address = some bytes ∧
      u.offset? address = some (b.locate address) := by
  obtain ⟨bank, blocks⟩ := u
  induction blocks with
  | nil => simp [Uploads.from?] at found
  | cons b rest ih =>
    simp only [Uploads.from?, Uploads.offset?, List.findSome?_cons, List.find?_cons] at found ih ⊢
    cases here : b.from? address with
    | none =>
      rw [here] at found
      obtain ⟨other, listed, rest⟩ := ih found
      exact ⟨other, List.mem_cons_of_mem _ listed, rest⟩
    | some suffix =>
      rw [here] at found
      exact ⟨b, List.mem_cons_self .., here.trans found, rfl⟩

/-- Bytes that are uploaded stand at their offset in the image. -/
theorem Uploads.has_of_from? {bank : UploadBank} {bytes : List UInt8}
    (found : (Uploads.ofImage image bank).from? address = some bytes) :
    ∃ offset, (Uploads.ofImage image bank).offset? address = some offset ∧
      image.Has offset bytes := by
  obtain ⟨b, listed, here, place⟩ := offset?_of_from? found
  refine ⟨b.locate address, place, Block.has_of_from? ?_ here⟩
  rcases List.mem_append.mp listed with own | shared
  · exact has_of_mem_chainFrom own
  · split at shared
    · simp at shared
    · exact has_of_mem_chainFrom shared

/-- An image with a chain is loaded. -/
theorem isLoaded_of_chain {bank : UploadBank} {b : Block} (h : (chain image bank)[0]? = some b) :
    image.isLoaded = true := by
  rw [chain, maxBlocks, chainFrom] at h
  cases read : Block.read? image (image.locate bank.offset) with
  | none => simp [read] at h
  | some first =>
    obtain ⟨size, word, -⟩ := Block.read?_eq_some_iff.mp read
    rw [Image.readWord, Image.fault?] at word
    by_cases empty : image.size = 0
    · simp [empty] at word
    · simp [Image.isLoaded, empty]

/-- An image that uploads an address is loaded. -/
theorem Uploads.isLoaded_of_from? {bank : UploadBank} {bytes : List UInt8}
    (found : (Uploads.ofImage image bank).from? address = some bytes) : image.isLoaded = true := by
  have chained : ∀ {bank : UploadBank} {b : Block}, b ∈ chain image bank →
      image.isLoaded = true := by
    intro bank b listed
    cases blocks : chain image bank with
    | nil => simp [blocks] at listed
    | cons first rest => exact isLoaded_of_chain (congrArg (·[0]?) blocks)
  obtain ⟨b, listed, -⟩ := offset?_of_from? found
  rcases List.mem_append.mp listed with own | shared
  · exact chained own
  · split at shared
    · simp at shared
    · exact chained shared

/-! ### Images of single blocks -/

theorem UploadBank.offset_apart {bank other : UploadBank} (ne : bank ≠ other) :
    bank.offset + 0x2C80 ≤ other.offset ∨ other.offset + 0x2C80 ≤ bank.offset := by
  revert ne
  cases bank <;> cases other <;> decide

theorem UploadBank.offset_le (bank : UploadBank) : bank.offset ≤ 0x1ACCA7 := by
  cases bank <;> decide

/-- A block that makes up the chain of a bank. -/
structure SingleBlock where
  bank : UploadBank
  address : UInt16
  payload : List UInt8

namespace SingleBlock

/-- The block as it stands in an image, with the end of the chain. -/
def bytes (b : SingleBlock) : List UInt8 := Block.encode b.address b.payload ++ [0, 0, 0, 0]

/-- The block as it is read. -/
def placed (b : SingleBlock) : Block :=
  { offset := b.bank.offset + Block.headerSize, address := b.address, bytes := b.payload }

/-- The block is not empty and ends before that of any other bank. -/
def Fits (b : SingleBlock) : Prop := b.payload ≠ [] ∧ b.payload.length ≤ 0x2C00

instance (b : SingleBlock) : Decidable b.Fits := inferInstanceAs (Decidable (_ ∧ _))

theorem length_bytes (b : SingleBlock) : b.bytes.length = b.payload.length + 8 := by
  rw [bytes, List.length_append, Block.length_encode, Block.headerSize]
  simp only [List.length_cons, List.length_nil]
  omega

end SingleBlock

namespace Image

/-- An image that is blank but for single blocks. -/
def ofBlocks : List SingleBlock → Image
  | [] => { data := Array.replicate 0x1B0000 0 }
  | b :: rest => { data := patch (ofBlocks rest).data b.bank.offset b.bytes }

theorem data_ofBlocks_cons (b : SingleBlock) (rest : List SingleBlock) :
    (ofBlocks (b :: rest)).data = patch (ofBlocks rest).data b.bank.offset b.bytes := by
  rw [ofBlocks]

variable {blocks : List SingleBlock}

theorem size_ofBlocks (blocks : List SingleBlock) : (ofBlocks blocks).size = 0x1B0000 := by
  induction blocks with
  | nil => rw [size, ofBlocks, Array.size_replicate]
  | cons b rest ih =>
    rw [size, data_ofBlocks_cons, size_patch]
    exact ih

theorem headerOffset_ofBlocks (blocks : List SingleBlock) :
    (ofBlocks blocks).headerOffset = 0 := by
  rw [headerOffset, size_ofBlocks]
  rfl

theorem locate_ofBlocks (blocks : List SingleBlock) (offset : Nat) :
    (ofBlocks blocks).locate offset = offset := by
  rw [locate, headerOffset_ofBlocks, Nat.add_zero]

theorem isLoaded_ofBlocks (blocks : List SingleBlock) : (ofBlocks blocks).isLoaded = true := by
  rw [isLoaded, size_ofBlocks]
  rfl

/-- The image is blank where no block of the given ones stands. -/
theorem has_ofBlocks_of_apart {offset count : Nat}
    (apart : ∀ b ∈ blocks, offset + count ≤ b.bank.offset ∨
      b.bank.offset + b.bytes.length ≤ offset) (inside : offset + count ≤ 0x1B0000) :
    (ofBlocks blocks).Has offset (List.replicate count 0) := by
  intro k below
  rw [List.length_replicate] at below
  rw [List.getElem?_replicate, if_pos below]
  induction blocks with
  | nil => rw [ofBlocks, Array.getElem?_replicate, if_pos (by omega)]
  | cons b rest ih =>
    have here := apart b (List.mem_cons_self ..)
    rw [data_ofBlocks_cons, getElem?_patch_of_outside _ _ _ (by omega)]
    exact ih fun other member => apart other (List.mem_cons_of_mem _ member)

/-- Every block stands where it belongs. -/
theorem has_ofBlocks (distinct : (blocks.map SingleBlock.bank).Nodup)
    (fits : ∀ b ∈ blocks, b.Fits) {block : SingleBlock} (member : block ∈ blocks) :
    (ofBlocks blocks).Has block.bank.offset block.bytes := by
  induction blocks with
  | nil => simp at member
  | cons b rest ih =>
    obtain ⟨fresh, distinct⟩ := List.nodup_cons.mp distinct
    have short := (fits block member).2
    have own := block.length_bytes
    have low := block.bank.offset_le
    intro k inside
    rw [data_ofBlocks_cons]
    rcases List.mem_cons.mp member with rfl | later
    · have total := size_ofBlocks rest
      unfold size at total
      rw [getElem?_patch_of_inside _ _ _ inside (by omega)]
    · have ne : b.bank ≠ block.bank := fun same =>
        fresh (same ▸ List.mem_map_of_mem later)
      have apart := UploadBank.offset_apart ne
      have other := b.length_bytes
      have bound := (fits b (List.mem_cons_self ..)).2
      rw [getElem?_patch_of_outside _ _ _ (by omega)]
      exact ih distinct (fun b member => fits b (List.mem_cons_of_mem _ member)) later k inside

/-- The given blocks are the chains of their banks. -/
theorem chain_ofBlocks (distinct : (blocks.map SingleBlock.bank).Nodup)
    (fits : ∀ b ∈ blocks, b.Fits) {block : SingleBlock} (member : block ∈ blocks) :
    chain (ofBlocks blocks) block.bank = [block.placed] := by
  obtain ⟨ne, short⟩ := fits block member
  rw [chain, locate_ofBlocks, maxBlocks]
  exact chainFrom_of_has_end (has_ofBlocks distinct fits member) ne (by unfold UInt16.size; omega)

theorem chainStop_ofBlocks (distinct : (blocks.map SingleBlock.bank).Nodup)
    (fits : ∀ b ∈ blocks, b.Fits) {block : SingleBlock} (member : block ∈ blocks) :
    chainStop (ofBlocks blocks) block.bank.offset maxBlocks =
      block.bank.offset + block.bytes.length := by
  obtain ⟨ne, short⟩ := fits block member
  have length := block.length_bytes
  rw [maxBlocks, chainStop_of_has_end (has_ofBlocks distinct fits member) ne
    (by unfold UInt16.size; omega), Block.headerSize]
  omega

/-- The chains of other banks are empty. -/
theorem chain_ofBlocks_of_absent (fits : ∀ b ∈ blocks, b.Fits) {bank : UploadBank}
    (absent : ∀ b ∈ blocks, b.bank ≠ bank) : chain (ofBlocks blocks) bank = [] := by
  have low := bank.offset_le
  have blank : (ofBlocks blocks).Has bank.offset (List.replicate 2 0) := by
    refine has_ofBlocks_of_apart ?_ (by omega)
    intro b member
    have apart := UploadBank.offset_apart (absent b member)
    have short := (fits b member).2
    have length := b.length_bytes
    omega
  rw [chain, locate_ofBlocks, maxBlocks, chainFrom, Block.read?_of_zero blank]

/-- What is uploaded for a bank is the block given for it, if there is one, and the shared block. -/
theorem uploads_ofBlocks (distinct : (blocks.map SingleBlock.bank).Nodup)
    (fits : ∀ b ∈ blocks, b.Fits) (bank : UploadBank) :
    let placed (bank : UploadBank) :=
      ((blocks.find? (·.bank == bank)).map SingleBlock.placed).toList
    Uploads.ofImage (ofBlocks blocks) bank =
      { bank, blocks := placed bank ++ if bank = .common then [] else placed .common } := by
  intro placed
  have chains : ∀ bank, chain (ofBlocks blocks) bank = placed bank := by
    intro bank
    cases found : blocks.find? (·.bank == bank) with
    | none =>
      rw [chain_ofBlocks_of_absent fits fun b member => by
        simpa using List.find?_eq_none.mp found b member]
      simp only [placed, found]
      rfl
    | some b =>
      have same : b.bank = bank := by simpa using List.find?_some found
      rw [← same, chain_ofBlocks distinct fits (List.mem_of_find?_eq_some found)]
      simp only [placed, same, found]
      rfl
  rw [Uploads.ofImage, chains, chains]

end Image
end SnesMusic
