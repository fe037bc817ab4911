import SnesMusic.Image

/-!
# Uploads

The sound chip's memory is filled from chains of blocks in the image: each block states its size,
the address it goes to and its bytes; a size of zero ends the chain. `Uploads` is what a bank
uploads, its own blocks before those that all banks share, and resolves an address in the first
block that holds it.
-/
namespace SnesMusic

open LittleEndian

/-- Addresses of the tables shared by all banks. -/
def sampleDirectoryAddress : UInt16 := 0x3C00

def instrumentTableAddress : UInt16 := 0x3D00

/-- An uploaded block: where its bytes stand in the image, where they go, and the bytes. -/
structure Block where
  offset : Nat
  address : UInt16
  bytes : List UInt8
  deriving DecidableEq, Repr

namespace Block

def size (b : Block) : Nat := b.bytes.length

/-- Size of a block's header. -/
def headerSize : Nat := 4

/-- Reads the block whose header stands at `offset`; none when the size is zero or the block is cut
off. -/
def read? (image : Image) (offset : Nat) : Option Block := do
  let size ← (image.readWord offset).toOption
  let address ← (image.readWord (offset + 2)).toOption
  let bytes ← (image.readBytes (offset + headerSize) size.toNat).toOption
  if size = 0 then none else some { offset := offset + headerSize, address, bytes }

/-- The bytes of the block from an address on, when the block holds that address. -/
def from? (b : Block) (address : UInt16) : Option (List UInt8) :=
  if b.address ≤ address then
    match b.bytes.drop (address.toNat - b.address.toNat) with
    | [] => none
    | bytes => some bytes
  else none

/-- The image offset of an address the block holds. -/
def locate (b : Block) (address : UInt16) : Nat := b.offset + (address.toNat - b.address.toNat)

/-- A block as it stands in the image. -/
def encode (address : UInt16) (payload : List UInt8) : List UInt8 :=
  LittleEndian.bytes (UInt16.ofNat payload.length) ++ LittleEndian.bytes address ++ payload

end Block

/-- A chain ends after this many blocks even if no size of zero ends it. -/
def maxBlocks : Nat := 1000

/-- The blocks of a chain from an offset on, at most `limit`. -/
def chainFrom (image : Image) (offset : Nat) : Nat → List Block
  | 0 => []
  | limit + 1 =>
    match Block.read? image offset with
    | none => []
    | some b => b :: chainFrom image (b.offset + b.size) limit

/-- The blocks of a bank's own chain. -/
def chain (image : Image) (bank : UploadBank) : List Block :=
  chainFrom image (image.locate bank.offset) maxBlocks

/-- What is in memory for a bank, in the order of look-up. -/
structure Uploads where
  bank : UploadBank
  blocks : List Block
  deriving DecidableEq, Repr

namespace Uploads

/-- A bank's own blocks, then the shared ones. -/
def ofImage (image : Image) (bank : UploadBank) : Uploads :=
  { bank
    blocks := chain image bank ++ if bank = .common then [] else chain image .common }

/-- The bytes from an address to the end of the block that uploads it. -/
def from? (u : Uploads) (address : UInt16) : Option (List UInt8) :=
  u.blocks.findSome? (·.from? address)

/-- The image offset of an address. -/
def offset? (u : Uploads) (address : UInt16) : Option Nat :=
  (u.blocks.find? (·.from? address |>.isSome)).map (·.locate address)

/-- The error of an address that no block uploads. -/
def notFound (u : Uploads) (address : UInt16) : MusicError := .addressNotFound address u.bank

def require (u : Uploads) (address : UInt16) : Except MusicError (List UInt8) :=
  match u.from? address with
  | some bytes => .ok bytes
  | none => .error (u.notFound address)

/-- At most `limit` words of the pointer table at an address, null words included. -/
def pointerTable (u : Uploads) (address : UInt16) (limit : Nat) :
    Except MusicError (List UInt16) := do
  match words (← u.require address) with
  | [] => .error (.malformed (.shortSongTable address))
  | table => .ok (table.take limit)

end Uploads

namespace Image

/-- What a bank uploads from a loaded image. -/
def uploads (image : Image) (bank : UploadBank) : Except MusicError Uploads :=
  if image.isLoaded then .ok (Uploads.ofImage image bank) else .error .imageNotLoaded

end Image
end SnesMusic
