/-!
# Instruments and samples
-/
namespace SnesMusic

/-- An instrument: the sample it plays, its envelope and its tuning. -/
structure Instrument where
  name : String := ""
  sample : UInt8 := 0
  attack : UInt8 := 0
  decay : UInt8 := 0
  sustainLevel : UInt8 := 0
  sustainRate : UInt8 := 0
  gain : UInt8 := 0
  pitchMultiplier : UInt16 := 0
  deriving DecidableEq, Repr

namespace Instrument

/-- The first envelope register: four bits of attack, three of decay above them, and the highest
bit, which turns the envelope on. -/
def attackDecay (i : Instrument) : UInt8 :=
  i.attack % 16 + i.decay % 8 * 16 + 128

/-- The second envelope register: five bits of sustain rate and three of sustain level
above them. -/
def sustain (i : Instrument) : UInt8 :=
  i.sustainRate % 32 + i.sustainLevel % 8 * 32

/-- Sets the envelope from its two registers. -/
def withEnvelope (i : Instrument) (attackDecay sustain : UInt8) : Instrument :=
  { i with
    attack := attackDecay % 16
    decay := attackDecay / 16 % 8
    sustainRate := sustain % 32
    sustainLevel := sustain / 32 }

end Instrument

/-- A sample, encoded and decoded. The loop point counts decoded samples. -/
structure Sample where
  name : String := ""
  encoded : List UInt8 := []
  pcm : List Int16 := []
  loopPoint : Nat := 0
  loops : Bool := false
  deriving DecidableEq, Repr

end SnesMusic
