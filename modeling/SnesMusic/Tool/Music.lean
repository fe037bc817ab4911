import SnesMusic.Soundtrack.Load
import SnesMusic.Soundtrack.Space
import SnesMusic.Tool.Script

/-!
# Music in scripts

How commands get the music of an image, and what they all tell about it.
-/
namespace SnesMusic

/-- The samples that have sound, with their places. -/
def Soundtrack.heard (s : Soundtrack) : List (Sample × Nat) :=
  s.samples.zipIdx.filter fun (sample, _) => !sample.encoded.isEmpty

namespace Tool

/-- Loads the music of an image file. -/
def loadMusic (input : String) (limits : List (Bank × Nat)) : Script (Image × Soundtrack) := do
  let image : Image := { data := ← Script.readFile input }
  let loading := (Soundtrack.new (Config.ofLimits limits)).load image
  Script.tellAll (loading.notices.map .ofNotice)
  Script.ofExcept loading.outcome
  return (image, loading.soundtrack)

/-- What is advised about a bank. -/
def adviceLines (bank : Bank) (usage : Usage) : List LogLine :=
  usage.advice.toList.map fun advice => .warning s!"{bank.name} bank: {advice}"

end Tool
end SnesMusic
