import SnesMusic.Error
import SnesMusic.Number.LittleEndian

/-!
# Sound files

WAV files with uncompressed mono sound of 8 or 16 bits, and an optional loop. A file is a header and
a list of chunks; chunks of other kinds are passed over. Faults are reported with their offset and
with the offsets of the parts that were being read.
-/
namespace SnesMusic

open LittleEndian

/-- Mono sound with an optional loop to its end. -/
structure Wave where
  rate : UInt32
  samples : List Int16
  loopStart : Option UInt32
  deriving DecidableEq, Repr

/-- The rate at which the sound chip plays. -/
def playbackRate : UInt32 := 32000

/-- Bytes still to be read and their offset in the file. -/
structure Cursor where
  offset : Nat
  bytes : List UInt8
  deriving DecidableEq, Repr

namespace Cursor

/-- Passes over `count` bytes. -/
def skip (c : Cursor) (count : Nat) : Cursor :=
  { offset := c.offset + count, bytes := c.bytes.drop count }

/-- The next `count` bytes, as a cursor over them, and what follows. -/
def take (c : Cursor) (count : Nat) : Except WaveTrace (Cursor × Cursor) :=
  let bytes := c.bytes.take count
  if bytes.length < count then .error [(c.offset, .ended)]
  else .ok ({ c with bytes }, c.skip count)

/-- Passes over the expected bytes. -/
def expect (c : Cursor) (expected : List UInt8) : Except WaveTrace Cursor :=
  if c.bytes.take expected.length = expected then .ok (c.skip expected.length)
  else .error [(c.offset, .unexpected)]

/-- The next double word. -/
def long (c : Cursor) : Except WaveTrace (UInt32 × Cursor) :=
  match c.bytes with
  | a :: b :: d :: e :: rest =>
    .ok (LittleEndian.long a b d e, { offset := c.offset + 4, bytes := rest })
  | _ => .error [(c.offset, .ended)]

/-- Notes in a fault's trace what was being read from here on. -/
def within {α : Type} (c : Cursor) (context : WaveContext) (result : Except WaveTrace α) :
    Except WaveTrace α :=
  result.mapError (· ++ [(c.offset, .within context)])

end Cursor

namespace Wave

/-- Names of the chunks. -/
def riffName : List UInt8 := [0x52, 0x49, 0x46, 0x46]
def waveName : List UInt8 := [0x57, 0x41, 0x56, 0x45]
def formatName : List UInt8 := [0x66, 0x6D, 0x74, 0x20]
def samplerName : List UInt8 := [0x73, 0x6D, 0x70, 0x6C]
def dataName : List UInt8 := [0x64, 0x61, 0x74, 0x61]

/-! ### Reading -/

/-- What the chunks read so far have told. A sample size of zero means that no format was given. -/
structure Progress where
  sampleSize : Nat := 0
  rate : UInt32 := 0
  samples : Option (List Int16) := none
  loopStart : Option UInt32 := none
  deriving DecidableEq, Repr

/-- Reads the file's header and gives what it says belongs to the file. -/
def readHeader (c : Cursor) : Except WaveTrace Cursor := c.within .header do
  let c ← c.expect riffName
  let (size, c) ← c.long
  if c.bytes.length < size.toNat then throw [(c.offset, .tooLarge)]
  ({ c with bytes := c.bytes.take size.toNat } : Cursor).expect waveName

/-- The sample size in bytes: one or two. -/
def readSampleSize (c : Cursor) : Except WaveTrace (Nat × Cursor) :=
  match c.expect [1, 0], c.expect [2, 0] with
  | .ok rest, _ => .ok (1, rest)
  | _, .ok rest => .ok (2, rest)
  | _, .error trace => .error (trace ++ [(c.offset, .noAlternative)])

def readFormat (p : Progress) (c : Cursor) : Except WaveTrace Progress := do
  let c ← c.within .pcmFormat (c.expect [1, 0])
  let c ← c.within .mono (c.expect [1, 0])
  let (rate, c) ← c.long
  let (_, c) ← c.long
  let (sampleSize, c) ← c.within .sampleSize (readSampleSize c)
  let _ ← c.within .bitsPerSample (c.expect [UInt8.ofNat (sampleSize * 8), 0])
  return { p with sampleSize, rate }

/-- Reads the first of the loops that a sampler chunk lists. -/
def readSampler (p : Progress) (c : Cursor) : Except WaveTrace Progress := do
  let (_, c) ← c.take 28
  let (loops, c) ← c.long
  let (_, c) ← c.long
  if loops = 0 then return p
  let (_, c) ← c.long
  let (_, c) ← c.long
  let (start, _) ← c.long
  return { p with loopStart := some start }

/-- The samples of a data chunk. Sound of 8 bits is unsigned and is widened to 16; a last odd byte
of 16 bit sound is dropped. -/
def samplesOf? (sampleSize : Nat) (data : List UInt8) : Option (List Int16) :=
  match sampleSize with
  | 1 => some (data.map fun byte => Int16.ofInt (((byte.toNat : Int) - 128) * 256))
  | 2 => some ((words data).map UInt16.toInt16)
  | _ => none

/-- Sound before its format cannot be read. -/
def readData (p : Progress) (c : Cursor) : Except WaveTrace Progress :=
  match samplesOf? p.sampleSize c.bytes with
  | some samples => .ok { p with samples := some samples }
  | none => .error [(c.offset, .noData)]

def readChunk (p : Progress) (name : List UInt8) (c : Cursor) : Except WaveTrace Progress :=
  if name = formatName then readFormat p c
  else if name = samplerName then readSampler p c
  else if name = dataName then readData p c
  else .ok p

/-- Reads chunks while there is room for a chunk's name and size. Chunks of odd size are padded; the
padding of the last one may be missing. -/
def readChunks (p : Progress) (c : Cursor) : Except WaveTrace (Progress × Cursor) :=
  match _same : c.bytes with
  | n₀ :: n₁ :: n₂ :: n₃ :: s₀ :: s₁ :: s₂ :: s₃ :: rest =>
    let size := (LittleEndian.long s₀ s₁ s₂ s₃).toNat
    let body : Cursor := { offset := c.offset + 8, bytes := rest }
    match body.take size with
    | .error trace => .error trace
    | .ok (chunk, _) =>
      match readChunk p [n₀, n₁, n₂, n₃] chunk with
      | .error trace => .error trace
      | .ok p => readChunks p
        { offset := body.offset + size + size % 2, bytes := rest.drop (size + size % 2) }
  | _ => .ok (p, c)
termination_by c.bytes.length
decreasing_by
  simp [_same]
  omega

/-- Reads a file. The format that counts is the last one, and so are sound and loop. -/
def read (file : List UInt8) : Except WaveTrace Wave := do
  let body ← readHeader { offset := 0, bytes := file }
  let (p, rest) ← readChunks {} body
  match p.samples with
  | none => .error [(rest.offset, .noData)]
  | some samples => .ok { rate := p.rate, samples, loopStart := p.loopStart }

/-- Reads a file, with the trace of a fault as an error. -/
def ofFile (file : List UInt8) : Except MusicError Wave :=
  (read file).mapError fun trace => .malformed (.wave trace)

/-! ### Writing -/

def writeLong (value : Nat) : List UInt8 := longBytes (UInt32.ofNat value)

/-- A chunk with its name and the size it states. -/
def chunk (name : List UInt8) (size : Nat) (body : List UInt8) : List UInt8 :=
  name ++ writeLong size ++ body

def sampleBytes (samples : List Int16) : List UInt8 := samples.flatMap fun s => bytes s.toUInt16

def formatBody (rate : UInt32) : List UInt8 :=
  [1, 0, 1, 0] ++ longBytes rate ++ longBytes (2 * rate) ++ [2, 0, 16, 0]

/-- The loop runs from its start to the last sample, without end. -/
def samplerBody (w : Wave) (start : UInt32) : List UInt8 :=
  let period := 1000000000 / max w.rate 1
  let count := UInt32.ofNat w.samples.length
  let last := max (if count = 0 then 0 else count - 1) start
  [0, 0, period, 60, 0, 0, 0, 1, 0, 0, 0, start, last, 0, 0].flatMap longBytes

/-- Bytes of a format, of a sampler chunk with one loop, and of the samples. -/
def formatSize : Nat := 16
def samplerSize : Nat := 60
def dataSize (w : Wave) : Nat := w.samples.length * 2

/-- The size that the header of a sound's file states: that of the name and of the chunks, each with
eight bytes of its own name and size. -/
def statedSize (w : Wave) : Nat :=
  4 + (8 + formatSize) + (8 + w.dataSize) + if w.loopStart.isSome then 8 + samplerSize else 0

/-- The file of a sound. -/
def write (w : Wave) : List UInt8 :=
  chunk riffName w.statedSize (waveName ++
    chunk formatName formatSize (formatBody w.rate) ++
    (match w.loopStart with
      | none => []
      | some start => chunk samplerName samplerSize (samplerBody w start)) ++
    chunk dataName w.dataSize (sampleBytes w.samples))

end Wave
end SnesMusic
