import SnesMusic.Proofs.Ranges.Trapping
import SnesMusic.Proofs.Upload

/-!
# Uploads on a machine

Blocks are found in the image as it is read: a chain is parsed from the bytes behind its beginning,
a block keeps its place and its size, and its bytes are cut out of the image when an address in it
is looked up. Main statements: the parser finds the blocks of the chain (`scanFrom_eq`), and in an
image whose size is a number of the machine every address is resolved to the same bytes
(`from?_eq`) and the same offset (`offset?_eq`).
-/
namespace SnesMusic.Trapping

open LittleEndian

/-! ### Images -/

/-- Where an offset of the bare image lies in this one. -/
def locate (image : Image) (offset : Nat) : Trapping Nat := index (offset + image.headerOffset)

/-- The bytes of a range. Its end may be no number of the machine. -/
def readBytes (image : Image) (offset length : Nat) : Trapping (Except MusicError (List UInt8)) :=
  if image.size = 0 then pure (.error .imageNotLoaded)
  else if offset + length < USize.size ∧ offset + length ≤ image.size then
    Except.ok <$> part image.data.toList offset (offset + length)
  else pure (.error (.outOfRange offset length image.size))

/-- The address that the expanded music patch jumps to. -/
def expandedHook? (image : Image) : Trapping (Option Nat) := do
  let offset ← locate image Image.hookOffset
  match ← readBytes image offset 4 with
  | .error _ => pure none
  | .ok hook => do
    let opcode ← item hook 0
    if opcode ≠ Image.longJumpOpcode then pure none
    else do
      let target := long (← item hook 1) (← item hook 2) (← item hook 3) 0
      let bank ← item hook 3
      if 0x40 ≤ bank ∧ bank ≤ 0x7F then pure none else pure (some target.toNat)

variable {image : Image}

theorem locate_eq (image : Image) {offset : Nat} (small : offset ≤ 0x1ACCA7) :
    locate image offset = pure (image.locate offset) := by
  apply index_eq_of_small
  unfold Image.headerOffset Image.headerSize
  split <;> omega

theorem slice_eq_drop (image : Image) (offset length : Nat) :
    image.slice offset length = (image.data.toList.take (offset + length)).drop offset := by
  rw [Image.slice, Array.toList_extract, List.extract, List.drop_take]

theorem readBytes_eq (fits : image.size < USize.size) (offset length : Nat) :
    readBytes image offset length = pure (image.readBytes offset length) := by
  unfold readBytes Image.readBytes Image.fault?
  by_cases empty : image.size = 0
  · rw [if_pos empty, if_pos empty]
  · rw [if_neg empty, if_neg empty]
    by_cases inside : offset + length ≤ image.size
    · rw [if_pos ⟨by omega, inside⟩, if_pos inside, part_eq (Nat.le_add_right _ _) inside,
        slice_eq_drop]
      rfl
    · rw [if_neg (by omega), if_neg inside]

theorem expandedHook?_eq (fits : image.size < USize.size) :
    expandedHook? image = pure image.expandedHook? := by
  rw [expandedHook?, locate_eq image (by decide), pure_bind, readBytes_eq fits, pure_bind,
    Image.expandedHook?]
  cases read : image.readBytes (image.locate Image.hookOffset) 4 with
  | error e => rfl
  | ok hook =>
    obtain ⟨opcode, low, mid, bank, rfl⟩ :=
      List.length_eq_four.mp (Image.length_of_readBytes read)
    simp only [item_cons_zero, item_cons_succ, pure_bind]
    by_cases jump : opcode = Image.longJumpOpcode
    · by_cases code : 0x40 ≤ bank ∧ bank ≤ 0x7F
      · rw [if_neg (not_not_intro jump), if_pos code, if_neg fun both => both.2 code]
      · rw [if_neg (not_not_intro jump), if_neg code, if_pos ⟨jump, code⟩]
    · rw [if_pos jump, if_neg fun both => jump both.1]

/-! ### Words -/

/-- The word in a piece of two bytes. -/
def wordOf (piece : List UInt8) : Trapping UInt16 := do
  let low ← item piece 0
  let high ← item piece 1
  pure (word low high)

/-- The words of a byte string. -/
def words (data : List UInt8) : Trapping (List UInt16) := (chunks 2 data).mapM wordOf

theorem words_eq (data : List UInt8) : words data = pure (LittleEndian.words data) := by
  have pieces : LittleEndian.words data =
      (chunks 2 data).map fun piece => word (piece.getD 0 0) (piece.getD 1 0) := by
    refine eq_map_chunks (by decide) ?_ ?_ data
    · intro piece rest whole
      match piece, whole with
      | [_, _], _ => rfl
    · intro rest short
      match rest, short with
      | [], _ | [_], _ => rfl
  rw [pieces]
  apply mapM_eq
  intro piece member
  match piece, length_of_mem_chunks member with
  | [_, _], _ => rfl

/-! ### Chains -/

/-- A block by its place: where its bytes stand in the image, where they go, and how many there
are. -/
structure Extent where
  offset : Nat
  address : UInt16
  size : Nat
  deriving DecidableEq, Repr

def extentOf (b : Block) : Extent where
  offset := b.offset
  address := b.address
  size := b.size

/-- The block that bytes begin with: its address, its bytes and what comes after it. -/
def parseBlock : List UInt8 → Option (UInt16 × List UInt8 × List UInt8)
  | s₀ :: s₁ :: a₀ :: a₁ :: rest =>
    let size := (word s₀ s₁).toNat
    if size ≠ 0 ∧ size ≤ rest.length then some (word a₀ a₁, rest.take size, rest.drop size)
    else none
  | _ => none

/-- Parses the blocks that the last bytes of the image begin with, at most `limit`. Where a block
stands is told by how many bytes are left. -/
def scanFrom (image : Image) (input : List UInt8) : Nat → Trapping (List Extent)
  | 0 => pure []
  | limit + 1 =>
    match parseBlock input with
    | none => pure []
    | some (address, bytes, rest) => do
      let offset ← minus image.size (bytes.length + rest.length)
      let others ← scanFrom image rest limit
      pure ({ offset, address, size := bytes.length } :: others)

/-- The blocks of a bank's own chain. -/
def scan (image : Image) (bank : UploadBank) : Trapping (List Extent) := do
  let start ← locate image bank.offset
  if start ≤ image.size then scanFrom image (image.data.toList.drop start) maxBlocks else pure []

theorem length_drop_data (image : Image) (offset : Nat) :
    (image.data.toList.drop offset).length = image.size - offset := by
  rw [List.length_drop, Array.length_toList, Image.size]

theorem has_of_drop {offset : Nat} {front rest : List UInt8}
    (shape : image.data.toList.drop offset = front ++ rest) : image.Has offset front := by
  intro k inside
  rw [← Array.getElem?_toList, ← List.getElem?_drop, shape, List.getElem?_append_left inside]

theorem fits_of_read? {offset : Nat} {b : Block} (read : Block.read? image offset = some b) :
    b.offset = offset + 4 ∧ b.offset + b.size ≤ image.size ∧ b.size ≠ 0 ∧
      b.size < UInt16.size ∧ ∃ size, image.readWord offset = .ok size ∧ size.toNat = b.size := by
  obtain ⟨size, word, -, bytes, nonzero, place⟩ := Block.read?_eq_some_iff.mp read
  have length : b.size = size.toNat := Image.length_of_readBytes bytes
  have inside := (Image.fits_of_fault? (Image.fault?_of_readBytes bytes)).2
  have positive : size.toNat ≠ 0 := fun zero => nonzero (UInt16.toNat.inj zero)
  refine ⟨place, ?_, ?_, ?_, size, word, length.symm⟩
  · rw [place, length]
    exact inside
  · rw [length]
    exact positive
  · rw [length]
    exact size.toNat_lt

theorem read?_of_short {offset : Nat} (short : image.size < offset + 4) :
    Block.read? image offset = none := by
  cases read : Block.read? image offset with
  | none => rfl
  | some b =>
    have inside := fits_of_read? read
    omega

theorem parseBlock_of_short {input : List UInt8} (short : input.length < 4) :
    parseBlock input = none := by
  match input, short with
  | [], _ | [_], _ | [_, _], _ | [_, _, _], _ => rfl

/-- The parser finds the block that stands at an offset. -/
theorem parseBlock_drop (image : Image) (offset : Nat) :
    parseBlock (image.data.toList.drop offset) = (Block.read? image offset).map
      fun b => (b.address, b.bytes, image.data.toList.drop (b.offset + b.size)) := by
  have count := length_drop_data image offset
  by_cases short : (image.data.toList.drop offset).length < 4
  · rw [parseBlock_of_short short, read?_of_short (by omega)]
    rfl
  · match shape : image.data.toList.drop offset, short with
    | [], short | [_], short | [_, _], short | [_, _, _], short => exact absurd (by simp) short
    | s₀ :: s₁ :: a₀ :: a₁ :: rest, _ =>
      have header : image.Has offset ([s₀, s₁] ++ [a₀, a₁]) := has_of_drop shape
      have first := Image.readWord_of_has header.left
      have behind : image.data.toList.drop (offset + 4) = rest := by
        rw [← List.drop_drop, shape]
        rfl
      rw [shape] at count
      simp only [List.length_cons] at count
      rw [parseBlock]
      by_cases filled : (word s₀ s₁).toNat ≠ 0 ∧ (word s₀ s₁).toNat ≤ rest.length
      · have length : (rest.take (word s₀ s₁).toNat).length = (word s₀ s₁).toNat :=
          List.length_take_of_le filled.2
        have bytes : image.Has (offset + 4) (rest.take (word s₀ s₁).toNat) :=
          has_of_drop (behind.trans (List.take_append_drop _ _).symm)
        have read : Block.read? image offset = some {
            offset := offset + 4
            address := word a₀ a₁
            bytes := rest.take (word s₀ s₁).toNat } := by
          refine Block.read?_eq_some_iff.mpr ⟨word s₀ s₁, first, Image.readWord_of_has header.right,
            ?_, fun zero => filled.1 (congrArg UInt16.toNat zero), rfl⟩
          have found := Image.readBytes_of_has bytes
            (List.ne_nil_of_length_pos (by rw [length]; omega))
          rwa [length] at found
        rw [if_pos filled, read, Option.map_some, Block.size, length, ← List.drop_drop, behind]
      · rw [if_neg filled]
        cases read : Block.read? image offset with
        | none => rfl
        | some b =>
          obtain ⟨place, inside, positive, -, size, word, length⟩ := fits_of_read? read
          obtain rfl : _ = size := Except.ok.inj (first.symm.trans word)
          omega

/-- The parser follows the chain from an offset on. -/
theorem scanFrom_eq (image : Image) (offset limit : Nat) :
    scanFrom image (image.data.toList.drop offset) limit =
      pure ((chainFrom image offset limit).map extentOf) := by
  induction limit generalizing offset with
  | zero => rfl
  | succ limit ih =>
    rw [scanFrom, parseBlock_drop, chainFrom]
    cases read : Block.read? image offset with
    | none => rfl
    | some b =>
      obtain ⟨place, inside, -⟩ := fits_of_read? read
      have left := length_drop_data image (b.offset + b.size)
      unfold Block.size at *
      simp only [Option.map_some]
      rw [minus_eq (by omega), pure_bind, ih, pure_bind, List.map_cons, extentOf, left,
        show image.size - (b.bytes.length + (image.size - (b.offset + b.bytes.length))) = b.offset
          by omega]
      rfl

theorem scan_eq (image : Image) (bank : UploadBank) :
    scan image bank = pure ((chain image bank).map extentOf) := by
  rw [scan, locate_eq image bank.offset_le, pure_bind, chain]
  split
  · exact scanFrom_eq image _ _
  · rw [maxBlocks, chainFrom, read?_of_short (by omega)]
    rfl

/-! ### Addresses -/

namespace Extent

/-- Whether an address lies in the block. -/
def contains (e : Extent) (address : UInt16) : Trapping Bool := do
  let stop ← index (e.address.toNat + e.size)
  pure (decide (e.address.toNat ≤ address.toNat ∧ address.toNat < stop))

/-- The offset of an address in the block. -/
def locate (e : Extent) (address : UInt16) : Trapping Nat := do
  let skip ← minus address.toNat e.address.toNat
  index (e.offset + skip)

end Extent

/-- The block that uploads an address: one of the bank's own, or a shared one. -/
def find (image : Image) (bank : UploadBank) (address : UInt16) : Trapping (Option Extent) := do
  let own ← scan image bank
  match ← own.findM? (·.contains address) with
  | some e => pure (some e)
  | none =>
    if bank = .common then pure none
    else do
      let shared ← scan image .common
      shared.findM? (·.contains address)

/-- The image offset of an address. -/
def offset? (image : Image) (bank : UploadBank) (address : UInt16) : Trapping (Option Nat) := do
  match ← find image bank address with
  | none => pure none
  | some e => some <$> e.locate address

/-- The bytes from an address to the end of the block that uploads it. -/
def from? (image : Image) (bank : UploadBank) (address : UInt16) :
    Trapping (Option (List UInt8)) := do
  match ← find image bank address with
  | none => pure none
  | some e => do
    let start ← e.locate address
    let stop ← index (e.offset + e.size)
    pure (range? image.data.toList start stop)

def require (image : Image) (bank : UploadBank) (address : UInt16) :
    Trapping (Except MusicError (List UInt8)) := do
  match ← from? image bank address with
  | some bytes => pure (.ok bytes)
  | none => pure (.error (.addressNotFound address bank))

/-- At most `limit` words of the pointer table at an address. -/
def pointerTable (image : Image) (bank : UploadBank) (address : UInt16) (limit : Nat) :
    Trapping (Except MusicError (List UInt16)) := do
  match ← require image bank address with
  | .error e => pure (.error e)
  | .ok data =>
    if data.length < 2 then pure (.error (.malformed (.shortSongTable address)))
    else do
      let table ← words data
      pure (.ok (table.take limit))

/-- A block whose bytes stand in the image: some, and no more than a header can state. -/
structure Sited (image : Image) (b : Block) : Prop where
  stands : image.Has b.offset b.bytes
  inside : b.offset + b.bytes.length ≤ image.size
  small : b.bytes.length < UInt16.size

theorem sited_of_mem_chainFrom {offset limit : Nat} {b : Block}
    (listed : b ∈ chainFrom image offset limit) : Sited image b := by
  suffices bounds : b.offset + b.size ≤ image.size ∧ b.size < UInt16.size from
    ⟨has_of_mem_chainFrom listed, bounds.1, bounds.2⟩
  induction limit generalizing offset with
  | zero => simp [chainFrom] at listed
  | succ limit ih =>
    rw [chainFrom] at listed
    cases read : Block.read? image offset with
    | none => simp [read] at listed
    | some first =>
      rw [read, List.mem_cons] at listed
      rcases listed with rfl | later
      · obtain ⟨-, inside, -, small, -⟩ := fits_of_read? read
        exact ⟨inside, small⟩
      · exact ih later

variable {bank : UploadBank}

theorem sited_of_mem_ofImage {b : Block} (listed : b ∈ (Uploads.ofImage image bank).blocks) :
    Sited image b := by
  rcases List.mem_append.mp listed with own | shared
  · exact sited_of_mem_chainFrom own
  · split at shared
    · simp at shared
    · exact sited_of_mem_chainFrom shared

/-- A block holds the addresses from its own up to its end. -/
theorem isSome_from? (b : Block) (address : UInt16) :
    (b.from? address).isSome = decide
      (b.address.toNat ≤ address.toNat ∧ address.toNat < b.address.toNat + b.size) := by
  unfold Block.from? Block.size
  by_cases low : b.address ≤ address
  · have low' := UInt16.le_iff_toNat_le.mp low
    rw [if_pos low]
    cases suffix : b.bytes.drop (address.toNat - b.address.toNat) with
    | nil =>
      have outside := List.drop_eq_nil_iff.mp suffix
      exact (decide_eq_false (by omega)).symm
    | cons byte rest =>
      have inside := congrArg List.length suffix
      rw [List.length_drop, List.length_cons] at inside
      exact (decide_eq_true (by omega)).symm
  · rw [if_neg low]
    rw [UInt16.le_iff_toNat_le] at low
    exact (decide_eq_false (by omega)).symm

theorem contains_eq {e : Extent} (small : e.size < UInt16.size) (address : UInt16) :
    e.contains address = pure (decide (e.address.toNat ≤ address.toNat ∧
      address.toNat < e.address.toNat + e.size)) := by
  have base := e.address.toNat_lt
  unfold UInt16.size at small
  rw [Extent.contains, index_eq_of_small (by omega), pure_bind]

theorem findM?_chain (image : Image) (bank : UploadBank) (address : UInt16) :
    ((chain image bank).map extentOf).findM? (·.contains address) =
      pure (((chain image bank).find? (·.from? address |>.isSome)).map extentOf) := by
  have each : ∀ e ∈ (chain image bank).map extentOf, e.contains address =
      pure (decide (e.address.toNat ≤ address.toNat ∧
        address.toNat < e.address.toNat + e.size)) := by
    intro e member
    obtain ⟨b, listed, rfl⟩ := List.mem_map.mp member
    exact contains_eq (sited_of_mem_chainFrom listed).small address
  rw [findM?_eq each, List.find?_map]
  congr 3
  funext b
  exact (isSome_from? b address).symm

/-- The block that is found is the first one that holds the address. -/
theorem find_eq (image : Image) (bank : UploadBank) (address : UInt16) :
    find image bank address =
      pure (((Uploads.ofImage image bank).blocks.find? (·.from? address |>.isSome)).map
        extentOf) := by
  rw [find, scan_eq, pure_bind, findM?_chain, pure_bind, Uploads.ofImage, List.find?_append]
  cases (chain image bank).find? (·.from? address |>.isSome) with
  | some b => rfl
  | none =>
    simp only [Option.map_none, Option.none_or]
    split
    · rfl
    · rw [scan_eq, pure_bind, findM?_chain]

/-- The bytes at an address are those of the block that is found. -/
theorem from?_of_find (u : Uploads) (address : UInt16) :
    u.from? address = (u.blocks.find? (·.from? address |>.isSome)).bind (·.from? address) := by
  obtain ⟨bank, blocks⟩ := u
  induction blocks with
  | nil => rfl
  | cons b rest ih =>
    simp only [Uploads.from?, List.findSome?_cons, List.find?_cons] at ih ⊢
    cases here : b.from? address with
    | none => exact ih
    | some bytes => exact here.symm

/-- The bytes from an address on are the block's without those in front. -/
theorem suffix_of_from? {b : Block} {address : UInt16} {suffix : List UInt8}
    (found : b.from? address = some suffix) :
    b.address.toNat ≤ address.toNat ∧ suffix ≠ [] ∧
      suffix = b.bytes.drop (address.toNat - b.address.toNat) := by
  unfold Block.from? at found
  split at found
  · rename_i low
    split at found
    · simp at found
    · rename_i filled
      obtain rfl := Option.some.inj found
      exact ⟨UInt16.le_iff_toNat_le.mp low, filled, rfl⟩
  · simp at found

theorem locate_extentOf (fits : image.size < USize.size) {b : Block} (sited : Sited image b)
    {address : UInt16} {suffix : List UInt8} (found : b.from? address = some suffix) :
    (extentOf b).locate address = pure (b.locate address) := by
  obtain ⟨low, filled, rest⟩ := suffix_of_from? found
  have length := congrArg List.length rest
  have positive := List.length_pos_iff.mpr filled
  have inside := sited.inside
  rw [List.length_drop] at length
  rw [Extent.locate]
  change (minus address.toNat b.address.toNat >>= fun skip => index (b.offset + skip)) = _
  rw [minus_eq low, pure_bind, index_eq (by omega)]
  rfl

theorem exists_of_find? {address : UInt16} {b : Block}
    (found : (Uploads.ofImage image bank).blocks.find? (·.from? address |>.isSome) = some b) :
    Sited image b ∧ ∃ suffix, b.from? address = some suffix :=
  have holds := List.find?_some (p := fun b : Block => (b.from? address).isSome) found
  ⟨sited_of_mem_ofImage (List.mem_of_find?_eq_some found), Option.isSome_iff_exists.mp holds⟩

/-- In an image whose size is a number of the machine, an address has the same offset. -/
theorem offset?_eq (fits : image.size < USize.size) (bank : UploadBank) (address : UInt16) :
    offset? image bank address = pure ((Uploads.ofImage image bank).offset? address) := by
  rw [offset?, find_eq, pure_bind, Uploads.offset?]
  cases found : (Uploads.ofImage image bank).blocks.find? (·.from? address |>.isSome) with
  | none => rfl
  | some b =>
    obtain ⟨sited, suffix, here⟩ := exists_of_find? found
    simp only [Option.map_some, locate_extentOf fits sited here, map_pure]

theorem range?_of_from? {b : Block} (sited : Sited image b) {address : UInt16} {suffix : List UInt8}
    (found : b.from? address = some suffix) :
    range? image.data.toList (b.locate address) (b.offset + b.bytes.length) = some suffix := by
  obtain ⟨low, filled, rest⟩ := suffix_of_from? found
  have stands := Block.has_of_from? sited.stands found
  have length := congrArg List.length rest
  have positive := List.length_pos_iff.mpr filled
  have inside := sited.inside
  rw [List.length_drop] at length
  have read := (Image.readBytes_of_fault? (stands.fault? filled)).symm.trans
    (Image.readBytes_of_has stands filled)
  unfold Block.locate at *
  have stop : b.offset + b.bytes.length =
      b.offset + (address.toNat - b.address.toNat) + suffix.length := by omega
  rw [range?, if_pos ⟨by omega, inside⟩, stop, ← slice_eq_drop, Except.ok.inj read]

/-- In an image whose size is a number of the machine, an address has the same bytes. -/
theorem from?_eq (fits : image.size < USize.size) (bank : UploadBank) (address : UInt16) :
    from? image bank address = pure ((Uploads.ofImage image bank).from? address) := by
  rw [from?, find_eq, pure_bind, from?_of_find]
  cases found : (Uploads.ofImage image bank).blocks.find? (·.from? address |>.isSome) with
  | none => rfl
  | some b =>
    obtain ⟨sited, suffix, here⟩ := exists_of_find? found
    have inside := sited.inside
    simp only [Option.map_some, locate_extentOf fits sited here, pure_bind, Option.bind_some]
    change (index (b.offset + b.bytes.length) >>= _) = _
    rw [index_eq (by omega), pure_bind, range?_of_from? sited here, here]

/-- Bytes that are found at an address are fewer than a word counts. -/
theorem length_lt_of_from? {address : UInt16} {data : List UInt8}
    (found : (Uploads.ofImage image bank).from? address = some data) :
    data.length < UInt16.size := by
  obtain ⟨b, listed, here, -⟩ := Uploads.offset?_of_from? found
  obtain ⟨-, -, rest⟩ := suffix_of_from? here
  rw [rest, List.length_drop]
  exact Nat.lt_of_le_of_lt (Nat.sub_le _ _) (sited_of_mem_ofImage listed).small

theorem from?_of_require {u : Uploads} {address : UInt16} {data : List UInt8}
    (required : u.require address = .ok data) : u.from? address = some data := by
  unfold Uploads.require at required
  split at required
  · rename_i found
    obtain rfl := Except.ok.inj required
    exact found
  · simp at required

theorem length_lt_of_require {address : UInt16} {data : List UInt8}
    (required : (Uploads.ofImage image bank).require address = .ok data) :
    data.length < UInt16.size := length_lt_of_from? (from?_of_require required)

theorem require_eq (fits : image.size < USize.size) (bank : UploadBank) (address : UInt16) :
    require image bank address = pure ((Uploads.ofImage image bank).require address) := by
  rw [require, from?_eq fits, pure_bind, Uploads.require]
  cases (Uploads.ofImage image bank).from? address <;> rfl

theorem pointerTable_eq (fits : image.size < USize.size) (bank : UploadBank) (address : UInt16)
    (limit : Nat) :
    pointerTable image bank address limit =
      pure ((Uploads.ofImage image bank).pointerTable address limit) := by
  rw [pointerTable, require_eq fits, pure_bind, Uploads.pointerTable]
  cases (Uploads.ofImage image bank).require address with
  | error e => rfl
  | ok data =>
    simp only [words_eq, pure_bind]
    match data with
    | [] => rfl
    | [_] => rfl
    | low :: high :: rest =>
      rw [if_neg (by simp)]
      rfl

end SnesMusic.Trapping
