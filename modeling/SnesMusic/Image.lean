import SnesMusic.Report
import SnesMusic.Number.LittleEndian

/-!
# Images

A ROM image under bounds checks: every access names the range it failed at. An image without bytes
counts as not loaded. Some images carry a copier header in front, which shifts all offsets of the
game. Main statements: a write changes the bytes of its range and no others, and keeps the size.
-/
namespace SnesMusic

open LittleEndian

structure Image where
  data : Array UInt8
  deriving DecidableEq

namespace Image

def size (image : Image) : Nat := image.data.size

def isLoaded (image : Image) : Bool := image.size != 0

/-- Size of the copier header; images are otherwise a multiple of 0x8000 bytes long. -/
def headerSize : Nat := 0x200

def headerOffset (image : Image) : Nat :=
  if image.size % 0x8000 = headerSize then headerSize else 0

/-- Where an offset of the bare image lies in this one. -/
def locate (image : Image) (offset : Nat) : Nat := offset + image.headerOffset

/-- The error of an access that the image does not admit, if any. -/
def fault? (image : Image) (offset length : Nat) : Option MusicError :=
  if image.size = 0 then some .imageNotLoaded
  else if offset + length ≤ image.size then none
  else some (.outOfRange offset length image.size)

/-- The bytes of a range; fewer where the image ends. -/
def slice (image : Image) (offset length : Nat) : List UInt8 :=
  (image.data.extract offset (offset + length)).toList

def readBytes (image : Image) (offset length : Nat) : Except MusicError (List UInt8) :=
  match image.fault? offset length with
  | some e => .error e
  | none => .ok (image.slice offset length)

def readByte (image : Image) (offset : Nat) : Except MusicError UInt8 :=
  match image.fault? offset 1 with
  | some e => .error e
  | none => .ok (image.data.getD offset 0)

def readWord (image : Image) (offset : Nat) : Except MusicError UInt16 :=
  match image.fault? offset 2 with
  | some e => .error e
  | none => .ok (word (image.data.getD offset 0) (image.data.getD (offset + 1) 0))

/-- Overwrites the array from `offset` on. -/
def patch (data : Array UInt8) (offset : Nat) : List UInt8 → Array UInt8
  | [] => data
  | byte :: rest => patch (data.setIfInBounds offset byte) (offset + 1) rest

def writeBytes (image : Image) (offset : Nat) (bytes : List UInt8) : Except MusicError Image :=
  match image.fault? offset bytes.length with
  | some e => .error e
  | none => .ok { data := patch image.data offset bytes }

def writeByte (image : Image) (offset : Nat) (byte : UInt8) : Except MusicError Image :=
  image.writeBytes offset [byte]

theorem size_patch (data : Array UInt8) (offset : Nat) (bytes : List UInt8) :
    (patch data offset bytes).size = data.size := by
  induction bytes generalizing data offset with
  | nil => rfl
  | cons byte rest ih => simp [patch, ih]

/-- Outside the written range nothing changes. -/
theorem getElem?_patch_of_outside (data : Array UInt8) (offset : Nat) (bytes : List UInt8) {i : Nat}
    (outside : i < offset ∨ offset + bytes.length ≤ i) :
    (patch data offset bytes)[i]? = data[i]? := by
  induction bytes generalizing data offset with
  | nil => rfl
  | cons byte rest ih =>
    simp only [List.length_cons] at outside
    rw [patch, ih _ _ (by omega)]
    exact Array.getElem?_setIfInBounds_ne (by omega)

/-- Inside it the written bytes stand. -/
theorem getElem?_patch_of_inside (data : Array UInt8) (offset : Nat) (bytes : List UInt8) {k : Nat}
    (inside : k < bytes.length) (fits : offset + bytes.length ≤ data.size) :
    (patch data offset bytes)[offset + k]? = bytes[k]? := by
  induction bytes generalizing data offset k with
  | nil => simp at inside
  | cons byte rest ih =>
    simp only [List.length_cons] at inside fits
    rw [patch]
    cases k with
    | zero =>
      have kept := getElem?_patch_of_outside (data.setIfInBounds offset byte) (offset + 1) rest
        (i := offset) (Or.inl (by omega))
      have here : (data.setIfInBounds offset byte)[offset]? = some byte :=
        Array.getElem?_setIfInBounds_self_of_lt (by omega)
      simpa [here] using kept
    | succ k =>
      have next := ih (data.setIfInBounds offset byte) (offset + 1) (k := k) (by omega)
        (by simp only [Array.size_setIfInBounds]; omega)
      rw [show offset + (k + 1) = offset + 1 + k by omega, next]
      rfl

theorem size_of_writeBytes {image written : Image} {offset : Nat} {bytes : List UInt8}
    (h : image.writeBytes offset bytes = .ok written) : written.size = image.size := by
  rw [writeBytes] at h
  split at h
  · simp at h
  · simp only [Except.ok.injEq] at h
    subst h
    exact size_patch _ _ _

/-! ### Bank addresses kept in code -/

/-- The three bytes of an offset in the LoROM mapping. The middle byte has seven bits. -/
def loRomBytes (offset : Nat) : UInt8 × UInt8 × UInt8 :=
  (UInt8.ofNat offset, UInt8.ofNat (offset % 0x8000 / 256), UInt8.ofNat (offset / 0x8000))

/-- The image after a write, or as far as it got, and the failure if there was one. -/
structure Written where
  image : Image
  outcome : Except MusicError Unit

/-- A write that leaves the image alone when it fails. -/
def tryWrite (image : Image) (offset : Nat) (bytes : List UInt8) : Written :=
  match image.writeBytes offset bytes with
  | .ok written => { image := written, outcome := .ok () }
  | .error e => { image, outcome := .error e }

/-- Goes on writing after a write that succeeded. -/
def Written.andThen (w : Written) (next : Image → Written) : Written :=
  match w.outcome with
  | .ok () => next w.image
  | .error _ => w

/-- Points a bank's three address bytes at `offset`. The highest bit of the middle byte belongs to
the code around it and is kept. A failure leaves the bytes written before it. -/
def writePointer (image : Image) (place : PointerBytes) (offset : Nat) : Written :=
  match image.readByte (image.locate place.mid) with
  | .error e => { image, outcome := .error e }
  | .ok mid =>
    let (low, middle, bank) := loRomBytes offset
    let kept := mid / 128 * 128
    ((image.tryWrite (image.locate place.low) [low]).andThen fun i =>
      i.tryWrite (i.locate place.mid) [kept + middle]).andThen fun i =>
        i.tryWrite (i.locate place.bank) [bank]

/-! ### The expanded music patch -/

/-- Where the patch replaces the game's loader by a long jump. -/
def hookOffset : Nat := 0x008919

def longJumpOpcode : UInt8 := 0x22

/-- The address the patch jumps to, when the image has the patch.
Banks 0x40 to 0x7F hold no code. -/
def expandedHook? (image : Image) : Option Nat :=
  match image.readBytes (image.locate hookOffset) 4 with
  | .ok [opcode, low, mid, bank] =>
    if opcode = longJumpOpcode ∧ ¬(0x40 ≤ bank ∧ bank ≤ 0x7F) then
      some (long low mid bank 0).toNat
    else none
  | _ => none

end Image
end SnesMusic
