import SnesMusic.Proofs.Bytecode.SongRoundTrip
import SnesMusic.Proofs.Soundtrack.Loading
import SnesMusic.Proofs.Soundtrack.Saving

/-!
# Song tables in place

A bank's block that begins with a table of the songs behind it, whatever the bytes of the songs are.
Main statements: the bank's songs are looked for at the addresses in the table, as far as it is
looked at, and the game's own songs that it lacks have no place (`songAddresses_eq`); and a table
stays in place when bytes behind it are overwritten (`Tabled.of_agree`).
-/
namespace SnesMusic

open LittleEndian

/-- A song table, the null word that ends it, and what stands behind them. -/
def tableBytes (addresses : List UInt16) (body : List UInt8) : List UInt8 :=
  addresses.flatMap bytes ++ [0, 0] ++ body

theorem tableBytes_ne_nil (addresses : List UInt16) (body : List UInt8) :
    tableBytes addresses body ≠ [] := by simp [tableBytes]

theorem length_tableBytes (addresses : List UInt16) (body : List UInt8) :
    (tableBytes addresses body).length = (addresses.length + 1) * 2 + body.length := by
  simp only [tableBytes, List.length_append, length_flatMap_bytes, List.length_cons,
    List.length_nil]
  omega

/-- The block of a bank begins with a table; the first of its songs follows it, the others lie
further behind. -/
structure Tabled (bank : Bank) (image : Image) (addresses : List UInt16) (body : List UInt8) :
    Prop where
  has : image.Has (image.locate bank.offset)
    (Block.encode bank.tableAddress (tableBytes addresses body))
  short : (tableBytes addresses body).length ≤ bank.room
  first : ∀ address ∈ addresses.head?,
    address.toNat = bank.tableAddress.toNat + (addresses.length + 1) * 2
  behind : ∀ address ∈ addresses,
    bank.tableAddress.toNat + (addresses.length + 1) * 2 ≤ address.toNat
  alone : addresses = [] → body = []

namespace Tabled

variable {bank : Bank} {image : Image} {addresses : List UInt16} {body : List UInt8}
  {config : Config}

theorem small (t : Tabled bank image addresses body) :
    (tableBytes addresses body).length < UInt16.size :=
  Nat.lt_of_le_of_lt t.short bank.room_lt

/-- The chain of the bank begins with the block. -/
theorem first_block (t : Tabled bank image addresses body) :
    (chain image bank.uploadBank)[0]? = some {
      offset := image.locate bank.offset + Block.headerSize
      address := bank.tableAddress
      bytes := tableBytes addresses body } := by
  have same : bank.uploadBank.offset = bank.offset := rfl
  rw [chain, maxBlocks, same, chainFrom_of_has t.has (tableBytes_ne_nil _ _) t.small]
  rfl

theorem isLoaded (t : Tabled bank image addresses body) : image.isLoaded = true :=
  isLoaded_of_chain t.first_block

/-- The words of the table are its addresses and the null word. -/
theorem tableWords_eq (t : Tabled bank image addresses body) :
    tableWords image bank = (addresses ++ [0]).take bank.maxSongs := by
  obtain ⟨rest, blocks⟩ := Uploads.ofImage_blocks t.first_block
  have found : (Uploads.ofImage image bank.uploadBank).from? bank.tableAddress =
      some (tableBytes addresses body) := by
    have some_ := tableBytes_ne_nil addresses body
    rw [Uploads.from?, blocks, List.findSome?_cons, Block.from?, if_pos (UInt16.le_refl _),
      Nat.sub_self, List.drop_zero]
    cases split : tableBytes addresses body with
    | nil => exact absurd split some_
    | cons byte others => rfl
  have words : words (tableBytes addresses body) = addresses ++ 0 :: words body := by
    rw [tableBytes, List.append_assoc, words_flatMap_bytes_append]
    rfl
  have table : (Uploads.ofImage image bank.uploadBank).pointerTable bank.tableAddress
      bank.maxSongs = .ok ((addresses ++ 0 :: LittleEndian.words body).take bank.maxSongs) := by
    simp only [Uploads.pointerTable, Uploads.require, found, bind, Except.bind, words]
    cases addresses <;> rfl
  rw [tableWords, tableEntries, table]
  simp only
  refine take_tableLength t.first t.behind fun none => ?_
  rw [t.alone none]
  rfl

/-- The block is taken for a song table of a size that the bank admits. -/
theorem hasSongBlock_eq (t : Tabled bank image addresses body)
    (le : (tableBytes addresses body).length ≤ config.limit bank) :
    hasSongBlock image config bank = true := by
  have header : image.readBytes (image.locate bank.offset) 4 =
      .ok (bytes (UInt16.ofNat (tableBytes addresses body).length) ++ bytes bank.tableAddress) :=
    Image.readBytes_of_has t.has.left (by simp [bytes])
  have size : (UInt16.ofNat (tableBytes addresses body).length).toNat =
      (tableBytes addresses body).length := by
    rw [UInt16.toNat_ofNat']
    exact Nat.mod_eq_of_lt t.small
  have nonzero : UInt16.ofNat (tableBytes addresses body).length ≠ 0 := by
    have length := length_tableBytes addresses body
    intro zero
    simp only [zero, UInt16.toNat_zero] at size
    omega
  rw [hasSongBlock, header]
  simp only [bytes, List.cons_append, List.nil_append, word_bytes, size, Bool.and_eq_true,
    beq_self_eq_true, bne_iff_ne, decide_eq_true_eq]
  exact ⟨⟨trivial, nonzero⟩, le⟩

/-- The songs that are looked for are those in the table. -/
theorem songAddresses_eq (t : Tabled bank image addresses body)
    (le : (tableBytes addresses body).length ≤ config.limit bank)
    (hook : bank.isExpansion = true → image.expandedHook?.isSome = true) :
    songAddresses image config bank = addresses.take bank.maxSongs ++
      List.replicate (bank.vanillaSlots - addresses.length) 0 := by
  have nonzero : ∀ word ∈ addresses, word ≠ 0 := by
    intro word member zero
    have place := t.behind word member
    simp only [zero, UInt16.toNat_zero] at place
    omega
  rw [songAddresses, t.tableWords_eq]
  cases own : bank.isExpansion with
  | false => rw [if_neg (by simp), gameAddresses nonzero bank.vanillaSlots_le]
  | true =>
    have kept : (addresses.take bank.maxSongs).filter (· != 0) =
        addresses.take bank.maxSongs :=
      List.filter_eq_self.mpr fun word member => by
        simpa using nonzero word (List.mem_of_mem_take member)
    rw [if_pos rfl, hook own, t.hasSongBlock_eq le, Bank.vanillaSlots_of_isExpansion own,
      Nat.zero_sub, List.replicate_zero, List.append_nil, List.take_append, List.filter_append,
      kept]
    cases bank.maxSongs - addresses.length <;> simp

/-- A table stays in place when bytes behind it are overwritten. -/
theorem of_agree {other : Image} (t : Tabled bank image addresses body)
    (agree : other.Agree image (image.locate bank.offset)
      (image.locate bank.offset + (Block.headerSize + (addresses.length + 1) * 2))) :
    ∃ overwritten, overwritten.length = body.length ∧
      Tabled bank other addresses overwritten := by
  have split : ∀ behind : List UInt8, behind.length = body.length →
      Block.encode bank.tableAddress (tableBytes addresses behind) =
        bytes (UInt16.ofNat (tableBytes addresses body).length) ++ bytes bank.tableAddress ++
          (addresses.flatMap bytes ++ [0, 0]) ++ behind := by
    intro behind length
    have size : (tableBytes addresses behind).length = (tableBytes addresses body).length := by
      rw [length_tableBytes, length_tableBytes, length]
    rw [Block.encode, size]
    simp only [tableBytes, List.append_assoc]
  have has := t.has
  rw [split body rfl] at has
  have length : (bytes (UInt16.ofNat (tableBytes addresses body).length) ++
      bytes bank.tableAddress ++ (addresses.flatMap bytes ++ [0, 0])).length =
        Block.headerSize + (addresses.length + 1) * 2 := by
    simp only [List.length_append, length_bytes, length_flatMap_bytes, List.length_cons,
      List.length_nil, Block.headerSize]
    omega
  rw [← length] at agree
  obtain ⟨overwritten, same, stands⟩ := agree.has_append has
  rw [← split overwritten same, ← agree.locate] at stands
  refine ⟨overwritten, same, stands, ?_, t.first, t.behind, ?_⟩
  · rw [length_tableBytes, same, ← length_tableBytes]
    exact t.short
  · intro none
    rw [t.alone none, List.length_nil, List.length_eq_zero_iff] at same
    exact same

end Tabled

/-- Songs that lie one after the other behind their table. -/
theorem Placed.tabled {bank : Bank} {image : Image} {songs moved : List Song} {body : List UInt8}
    (placed : Placed (Saving.firstAddress bank songs) songs moved body)
    (has : image.Has (image.locate bank.offset)
      (Block.encode bank.tableAddress (Saving.payload moved body)))
    (short : (Saving.payload moved body).length ≤ bank.room) :
    Tabled bank image (moved.map Song.address) body := by
  have length : (moved.map Song.address).length = songs.length := by
    rw [List.length_map, placed.length_eq]
  refine ⟨has, short, ?_, ?_, ?_⟩
  · intro address member
    rw [List.head?_map, Option.mem_def, Option.map_eq_some_iff] at member
    obtain ⟨song, begins, rfl⟩ := member
    rw [placed.head song begins, length]
    rfl
  · intro address member
    obtain ⟨song, listed, rfl⟩ := List.mem_map.mp member
    obtain ⟨k, stands⟩ := List.getElem?_of_mem listed
    obtain ⟨front, _, _, there⟩ := placed.stands stands
    rw [there.place, length, Saving.firstAddress]
    omega
  · intro none
    rw [List.map_eq_nil_iff.mp none] at placed
    exact placed.body_eq_nil

end SnesMusic
