import SnesMusic.Proofs.Upload

/-!
# Copier headers

A bare image and the same image with a copier header in front hold the same bytes, at offsets that
differ by the size of the header. Main statements: accesses come to the same (`readBytes_headed`,
`tryWrite_headed`), so do the pointers that are written into code (`writePointer_headed`), and the
banks upload the same blocks (`ofImage_headed`).
-/
namespace SnesMusic

open LittleEndian

/-- An error as it reads when the image has a copier header: a range that the image does not have
begins further on, in a larger image. -/
def MusicError.headed : MusicError → MusicError
  | .outOfRange offset length size =>
    .outOfRange (offset + Image.headerSize) length (size + Image.headerSize)
  | e => e

section

variable {ε ε' α : Type} (f : ε → ε')

@[simp] theorem mapError_error (e : ε) :
    (Except.error e : Except ε α).mapError f = .error (f e) := rfl

@[simp] theorem mapError_ok (a : α) : (Except.ok a : Except ε α).mapError f = .ok a := rfl

theorem toOption_mapError (result : Except ε α) :
    (result.mapError f).toOption = result.toOption := by
  cases result <;> rfl

end

namespace Image

/-- The image has bytes, and their number is that of an image without copier header. -/
structure Bare (image : Image) : Prop where
  filled : image.size ≠ 0
  aligned : image.size % 0x8000 = 0

/-- The image behind a copier header. -/
def headed (header : Vector UInt8 headerSize) (image : Image) : Image :=
  { data := header.toArray ++ image.data }

variable (header : Vector UInt8 headerSize) {image : Image}

theorem size_headed (image : Image) : (image.headed header).size = image.size + headerSize := by
  rw [size, headed, Array.size_append, header.size_toArray, Nat.add_comm]
  rfl

theorem getElem?_headed (image : Image) (i : Nat) :
    (image.headed header).data[i + headerSize]? = image.data[i]? := by
  have behind : header.toArray.size ≤ i + headerSize := by
    rw [header.size_toArray]
    exact Nat.le_add_left ..
  rw [headed, Array.getElem?_append_right behind, header.size_toArray, Nat.add_sub_cancel]

/-! ### Offsets -/

theorem Bare.locate (bare : image.Bare) (offset : Nat) : image.locate offset = offset := by
  have none : ¬ image.size % 0x8000 = headerSize := by
    rw [bare.aligned]
    decide
  rw [Image.locate, headerOffset, if_neg none, Nat.add_zero]

theorem Bare.locate_headed (bare : image.Bare) (offset : Nat) :
    (image.headed header).locate offset = offset + headerSize := by
  have one : (image.headed header).size % 0x8000 = headerSize := by
    rw [size_headed, Nat.add_mod, bare.aligned]
    rfl
  rw [Image.locate, headerOffset, if_pos one]

theorem isLoaded_headed (image : Image) : (image.headed header).isLoaded = true := by
  rw [isLoaded, size_headed]
  exact bne_iff_ne.mpr (Nat.succ_ne_zero _)

theorem Bare.isLoaded (bare : image.Bare) : image.isLoaded = true := bne_iff_ne.mpr bare.filled

/-! ### Accesses -/

theorem fault?_headed (filled : image.size ≠ 0) (offset length : Nat) :
    (image.headed header).fault? (offset + headerSize) length =
      (image.fault? offset length).map MusicError.headed := by
  have full : ¬ image.size + headerSize = 0 := Nat.succ_ne_zero _
  have inside : offset + headerSize + length ≤ image.size + headerSize ↔
      offset + length ≤ image.size := by omega
  rw [fault?, fault?, size_headed, if_neg full, if_neg filled]
  simp only [inside]
  split <;> rfl

theorem slice_headed (image : Image) (offset length : Nat) :
    (image.headed header).slice (offset + headerSize) length = image.slice offset length := by
  have size : (image.headed header).data.size = image.data.size + headerSize :=
    size_headed header image
  refine List.ext_getElem? fun k => ?_
  rw [slice, slice, Array.getElem?_toList, Array.getElem?_toList, Array.getElem?_extract,
    Array.getElem?_extract, size]
  have reach : (k < min (offset + headerSize + length) (image.data.size + headerSize) -
      (offset + headerSize)) ↔ k < min (offset + length) image.data.size - offset := by omega
  simp only [reach, Nat.add_right_comm offset headerSize k, getElem?_headed]

theorem readBytes_headed (filled : image.size ≠ 0) (offset length : Nat) :
    (image.headed header).readBytes (offset + headerSize) length =
      (image.readBytes offset length).mapError MusicError.headed := by
  rw [readBytes, readBytes, fault?_headed header filled, slice_headed]
  cases image.fault? offset length <;> rfl

theorem getD_headed (image : Image) (i : Nat) (byte : UInt8) :
    (image.headed header).data.getD (i + headerSize) byte = image.data.getD i byte := by
  rw [Array.getD_eq_getD_getElem?, Array.getD_eq_getD_getElem?, getElem?_headed]

theorem readByte_headed (filled : image.size ≠ 0) (offset : Nat) :
    (image.headed header).readByte (offset + headerSize) =
      (image.readByte offset).mapError MusicError.headed := by
  rw [readByte, readByte, fault?_headed header filled, getD_headed]
  cases image.fault? offset 1 <;> rfl

theorem readWord_headed (filled : image.size ≠ 0) (offset : Nat) :
    (image.headed header).readWord (offset + headerSize) =
      (image.readWord offset).mapError MusicError.headed := by
  rw [readWord, readWord, fault?_headed header filled, Nat.add_right_comm, getD_headed,
    getD_headed]
  cases image.fault? offset 2 <;> rfl

theorem patch_append (front data : Array UInt8) (offset : Nat) (bytes : List UInt8) :
    patch (front ++ data) (offset + front.size) bytes = front ++ patch data offset bytes := by
  induction bytes generalizing data offset with
  | nil => rfl
  | cons byte rest ih =>
    have first : (front ++ data).setIfInBounds (offset + front.size) byte =
        front ++ data.setIfInBounds offset byte := by
      rw [Array.setIfInBounds_append_right (Nat.le_add_left ..), Nat.add_sub_cancel]
    rw [patch, patch, first, Nat.add_right_comm, ih]

/-- What was written, behind a copier header. -/
def Written.headed (w : Written) : Written :=
  { image := w.image.headed header, outcome := w.outcome.mapError MusicError.headed }

theorem tryWrite_headed (filled : image.size ≠ 0) (offset : Nat) (bytes : List UInt8) :
    (image.headed header).tryWrite (offset + headerSize) bytes =
      (image.tryWrite offset bytes).headed header := by
  have patched : patch (header.toArray ++ image.data) (offset + headerSize) bytes =
      header.toArray ++ patch image.data offset bytes := by
    have moved := patch_append header.toArray image.data offset bytes
    rwa [header.size_toArray] at moved
  rw [tryWrite, tryWrite, writeBytes, writeBytes, fault?_headed header filled]
  cases image.fault? offset bytes.length with
  | some e => rfl
  | none => simp only [Option.map_none, headed, patched, Written.headed, mapError_ok]

theorem Written.andThen_headed {w : Written} {next next' : Image → Written}
    (alike : next' (w.image.headed header) = (next w.image).headed header) :
    (w.headed header).andThen next' = (w.andThen next).headed header := by
  unfold andThen
  cases outcome : w.outcome with
  | error e => simp [Written.headed, outcome]
  | ok u => simp [Written.headed, outcome, alike]

theorem Bare.of_size (bare : image.Bare) {other : Image} (same : other.size = image.size) :
    other.Bare :=
  ⟨same ▸ bare.filled, same ▸ bare.aligned⟩

/-- A write to a place of the bare image goes to the same place behind the header. -/
theorem Bare.tryWrite_locate (bare : image.Bare) (offset : Nat) (bytes : List UInt8) :
    (image.headed header).tryWrite ((image.headed header).locate offset) bytes =
      (image.tryWrite (image.locate offset) bytes).headed header := by
  rw [bare.locate_headed, bare.locate, tryWrite_headed header bare.filled]

theorem writePointer_headed (bare : image.Bare) (place : PointerBytes) (target : Nat) :
    (image.headed header).writePointer place target =
      (image.writePointer place target).headed header := by
  rw [writePointer, writePointer, bare.locate_headed, bare.locate,
    readByte_headed header bare.filled]
  cases image.readByte place.mid with
  | error e => rfl
  | ok mid =>
    have written : ∀ (w : Written) (offset : Nat) (bytes : List UInt8),
        w.image.size = image.size →
        (w.headed header).andThen (fun i => i.tryWrite (i.locate offset) bytes) =
          (w.andThen fun i => i.tryWrite (i.locate offset) bytes).headed header :=
      fun w offset bytes same =>
        Written.andThen_headed header ((bare.of_size same).tryWrite_locate header offset bytes)
    have size : ∀ (w : Written) (offset : Nat) (bytes : List UInt8),
        w.image.size = image.size →
        (w.andThen fun i => i.tryWrite (i.locate offset) bytes).image.size = image.size := by
      intro w offset bytes same
      unfold Written.andThen
      cases w.outcome with
      | error e => exact same
      | ok u => exact (frame_tryWrite _ _ _).size.trans same
    have first : ∀ bytes, (image.tryWrite (image.locate place.low) bytes).image.size = image.size :=
      fun bytes => (frame_tryWrite _ _ _).size
    simp only [mapError_ok]
    rw [bare.tryWrite_locate, written _ _ _ (first _), written _ _ _ (size _ _ _ (first _))]

theorem expandedHook?_headed (bare : image.Bare) :
    (image.headed header).expandedHook? = image.expandedHook? := by
  rw [expandedHook?, expandedHook?, bare.locate_headed, bare.locate,
    readBytes_headed header bare.filled]
  cases image.readBytes hookOffset 4 <;> rfl

end Image

/-! ### Uploads -/

/-- A block behind a copier header. -/
def Block.headed (b : Block) : Block := { b with offset := b.offset + Image.headerSize }

/-- What is uploaded from behind a copier header. -/
def Uploads.headed (u : Uploads) : Uploads := { u with blocks := u.blocks.map Block.headed }

variable (header : Vector UInt8 Image.headerSize) {image : Image}

theorem Block.read?_headed (filled : image.size ≠ 0) (offset : Nat) :
    read? (image.headed header) (offset + Image.headerSize) =
      (read? image offset).map headed := by
  have second : offset + Image.headerSize + 2 = offset + 2 + Image.headerSize :=
    Nat.add_right_comm ..
  have third : offset + Image.headerSize + headerSize = offset + headerSize + Image.headerSize :=
    Nat.add_right_comm ..
  simp only [read?, second, third, Image.readWord_headed header filled,
    Image.readBytes_headed header filled, toOption_mapError, Option.bind_eq_bind,
    Option.map_bind, Function.comp_def, apply_ite (Option.map headed), Option.map_none,
    Option.map_some, headed]

theorem chainFrom_headed (filled : image.size ≠ 0) (offset limit : Nat) :
    chainFrom (image.headed header) (offset + Image.headerSize) limit =
      (chainFrom image offset limit).map Block.headed := by
  induction limit generalizing offset with
  | zero => rfl
  | succ limit ih =>
    rw [chainFrom, chainFrom, Block.read?_headed header filled]
    cases Block.read? image offset with
    | none => rfl
    | some b =>
      have next : b.headed.offset + b.headed.size = b.offset + b.size + Image.headerSize :=
        Nat.add_right_comm ..
      simp only [Option.map_some, List.map_cons, next, ih]

theorem chain_headed (bare : image.Bare) (bank : UploadBank) :
    chain (image.headed header) bank = (chain image bank).map Block.headed := by
  rw [chain, chain, bare.locate_headed, bare.locate, chainFrom_headed header bare.filled]

namespace Uploads

/-- A copier header moves the blocks that are uploaded, and changes nothing else of them. -/
theorem ofImage_headed (bare : image.Bare) (bank : UploadBank) :
    ofImage (image.headed header) bank = (ofImage image bank).headed := by
  rw [ofImage, ofImage, headed, chain_headed header bare, chain_headed header bare]
  split <;> simp

variable (u : Uploads) (address : UInt16)

theorem from?_headed : u.headed.from? address = u.from? address := by
  simp only [from?, headed, List.findSome?_map]
  rfl

theorem require_headed : u.headed.require address = u.require address := by
  rw [require, require, from?_headed]
  rfl

theorem offset?_headed :
    u.headed.offset? address = (u.offset? address).map (· + Image.headerSize) := by
  simp only [offset?, headed, List.find?_map, Option.map_map]
  congr 1
  funext b
  exact Nat.add_right_comm ..

end Uploads
end SnesMusic
