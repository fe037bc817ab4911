/-!
# BRR audio

Samples are stored in blocks of nine bytes for sixteen samples: a header and sixteen signed nibbles,
each scaled and added to a prediction from the two samples before it. The decoder stops after the
block marked as the last; the encoder tries every scale and filter and keeps the first with the
least squared error.
-/
namespace SnesMusic.Brr

/-- Bytes of a block. -/
def blockSize : Nat := 9

/-- Samples of a block. -/
def blockSamples : Nat := 16

/-- Scales above this one are not used by the encoder and have a fixed meaning for the decoder. -/
def maxShift : Nat := 12

/-- The first byte of a block: four bits of scale, two of filter, the loop mark and the end mark. -/
structure Header where
  shift : Nat
  filter : Nat
  loop : Bool
  last : Bool
  deriving DecidableEq, Repr

namespace Header

def ofByte (byte : UInt8) : Header :=
  let value := byte.toNat
  { shift := value / 16
    filter := value / 4 % 4
    loop := value / 2 % 2 == 1
    last := value % 2 == 1 }

/-- The two marks as a number: one for the last block, two for the loop. -/
def marks (h : Header) : Nat := (if h.loop then 2 else 0) + if h.last then 1 else 0

def toByte (h : Header) : UInt8 := UInt8.ofNat (h.shift * 16 + h.filter % 4 * 4 + h.marks)

theorem toByte_ofByte (byte : UInt8) : (ofByte byte).toByte = byte := by
  have bound := byte.toNat_lt
  apply UInt8.toNat.inj
  simp only [ofByte, toByte, marks, UInt8.toNat_ofNat', beq_iff_eq]
  split <;> split <;> omega

end Header

/-- A block: its header and its eight data bytes. -/
structure Block where
  header : Header
  data : List UInt8
  deriving DecidableEq, Repr

/-- The whole blocks of a byte string; a rest shorter than a block is dropped. -/
def blocks : List UInt8 → List Block
  | h :: a :: b :: c :: d :: e :: f :: g :: i :: rest =>
    { header := Header.ofByte h, data := [a, b, c, d, e, f, g, i] } :: blocks rest
  | _ => []

/-- The value of a nibble, the upper half being negative. -/
def signed (nibble : Nat) : Int := if nibble < 8 then nibble else (nibble : Int) - 16

/-- The signed nibbles of a block's data, high nibble first. -/
def nibbles (data : List UInt8) : List Int :=
  data.flatMap fun byte => [signed (byte.toNat / 16), signed (byte.toNat % 16)]

/-- The two samples before the current one, which predict it. -/
structure History where
  last : Int := 0
  older : Int := 0
  deriving DecidableEq, Repr

/-- The predicted sample. Divisions go to the floor. -/
def predict (filter : Nat) (history : History) : Int :=
  match filter with
  | 1 => history.last + -history.last / 16
  | 2 => history.last * 61 / 32 - history.older * 15 / 16
  | 3 => history.last * 115 / 64 - history.older * 13 / 16
  | _ => 0

/-- The size of a nibble's steps on a scale. -/
def step (shift : Nat) : Int := ((1 <<< shift : Nat) : Int)

/-- A nibble on its block's scale. Scales beyond the largest keep only the sign. -/
def scale (shift : Nat) (nibble : Int) : Int :=
  if shift ≤ maxShift then nibble * step shift
  else if nibble < 0 then -2048
  else 0

/-- The nearest value that sixteen bits hold. -/
def clamp (value : Int) : Int := max (-32768) (min 32767 value)

/-- The sample that a nibble stands for after a prediction. -/
def reconstruct (shift : Nat) (predicted nibble : Int) : Int :=
  clamp (scale shift nibble + predicted)

def History.push (history : History) (sample : Int) : History :=
  { last := sample, older := history.last }

/-! ### Decoding -/

/-- The samples of nibbles in turn, and the history after them. -/
def decodeNibbles (shift filter : Nat) (history : History) : List Int → List Int × History
  | [] => ([], history)
  | nibble :: rest =>
    let sample := reconstruct shift (predict filter history) nibble
    let (samples, after) := decodeNibbles shift filter (history.push sample) rest
    (sample :: samples, after)

def Block.decode (block : Block) (history : History) : List Int × History :=
  decodeNibbles block.header.shift block.header.filter history (nibbles block.data)

def decodeBlocks (history : History) : List Block → List Int
  | [] => []
  | block :: rest =>
    let (samples, after) := block.decode history
    samples ++ decodeBlocks after rest

/-- The blocks up to the first marked as the last, all when none is. -/
def untilLast : List Block → List Block
  | [] => []
  | block :: rest => if block.header.last then [block] else block :: untilLast rest

/-- Decoded samples and the sample the loop begins at: that of the first block marked so. -/
structure Decoded where
  pcm : List Int16
  loopStart : Option Nat
  deriving DecidableEq, Repr

def decode (data : List UInt8) : Decoded :=
  let played := untilLast (blocks data)
  { pcm := (decodeBlocks {} played).map Int16.ofInt
    loopStart := (played.findIdx? (·.header.loop)).map (· * blockSamples) }

/-- Bytes up to the end of the block marked as the last. -/
def length? (data : List UInt8) : Option Nat :=
  ((blocks data).findIdx? (·.header.last)).map fun index => (index + 1) * blockSize

/-! ### Encoding -/

/-- A block tried with one scale and filter:
its nibbles, the squared error and the history after. -/
structure Trial where
  shift : Nat
  filter : Nat
  nibbles : List Int
  error : Int
  history : History
  deriving DecidableEq, Repr

/-- The nibble that comes closest to a sample; half a step rounds up. -/
def quantize (shift : Nat) (predicted sample : Int) : Int :=
  max (-8) (min 7 ((sample - predicted + step shift / 2) / step shift))

/-- Encodes samples in turn on one scale with one filter. -/
def tryNibbles (shift filter : Nat) (history : History) : List Int → List Int × Int × History
  | [] => ([], 0, history)
  | sample :: rest =>
    let predicted := predict filter history
    let nibble := quantize shift predicted sample
    let decoded := reconstruct shift predicted nibble
    let (others, error, after) := tryNibbles shift filter (history.push decoded) rest
    (nibble :: others, (sample - decoded) * (sample - decoded) + error, after)

def trial (samples : List Int) (history : History) (shift filter : Nat) : Trial :=
  let (nibbles, error, after) := tryNibbles shift filter history samples
  { shift, filter, nibbles, error, history := after }

/-- The scales and filters in the order they are tried. -/
def settings : List (Nat × Nat) :=
  (List.range (maxShift + 1)).flatMap fun shift => (List.range 4).map fun filter => (shift, filter)

/-- The better of two trials, the earlier of equals. -/
def better (a b : Trial) : Trial := if b.error < a.error then b else a

/-- The best trial for a block. -/
def bestTrial (samples : List Int) (history : History) : Trial :=
  settings.foldl (fun best (shift, filter) => better best (trial samples history shift filter))
    (trial samples history 0 0)

/-- Two nibbles in a byte, the first one high. -/
def pack : List Int → List UInt8
  | high :: low :: rest => UInt8.ofNat ((high % 16 * 16 + low % 16).toNat) :: pack rest
  | _ => []

/-- Encodes blocks from number `index` on, `left` of them. The last is marked so, and blocks from
`loopBlock` on carry the loop mark. -/
def encodeBlocks (loopBlock : Option Nat) (index : Nat) (history : History) (samples : List Int) :
    Nat → List UInt8
  | 0 => []
  | left + 1 =>
    let chunk := samples.take blockSamples
    let padded := chunk ++ List.replicate (blockSamples - chunk.length) 0
    let best := bestTrial padded history
    let header : Header := {
      shift := best.shift
      filter := best.filter
      loop := loopBlock.any (· ≤ index)
      last := left == 0 }
    header.toByte :: pack best.nibbles ++
      encodeBlocks loopBlock (index + 1) best.history (samples.drop blockSamples) left

/-- Number of blocks for so many samples. -/
def blockCount (samples : Nat) : Nat := (samples + blockSamples - 1) / blockSamples

/-- Encodes samples, padded with silence to whole blocks. The loop begins with the block that holds
its first sample, or with the last block when the sample lies beyond. -/
def encode (pcm : List Int16) (loopStart : Option Nat) : List UInt8 :=
  let count := blockCount pcm.length
  let loopBlock := loopStart.map fun start => min (start / blockSamples) (count - 1)
  encodeBlocks loopBlock 0 {} (pcm.map Int16.toInt) count

end SnesMusic.Brr
