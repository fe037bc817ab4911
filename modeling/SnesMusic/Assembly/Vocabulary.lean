import SnesMusic.Song.Basic
import SnesMusic.Text.Hex
import SnesMusic.Text.Unsigned

/-!
# Words of the assembly dialect

Notes are written as letter and octave with `s` for a sharp, durations as `!4th` and the like,
commands and instruments as names, numbers in decimal or behind `$` or `0x` in hexadecimal. Each
kind of word has a writer and a reader.
-/
namespace SnesMusic.Assembly

open Text

/-! ### Names -/

def addressName : String := "ARAMAddr"

def loopName : String := "LoopSegment"

def tieToken : String := "Tie"

def restToken : String := "Rest"

def endToken : String := "End"

/-- The steps of the octave as tokens. -/
def stepTokens : List String := ["C", "Cs", "D", "Ds", "E", "F", "Fs", "G", "Gs", "A", "As", "B"]

/-- Named durations, without the mark that begins them. -/
def durations : List (String × UInt8) := [
  ("4th", 0x48), ("4thD", 0x6C), ("4thT", 0x30), ("8th", 0x24), ("8thD", 0x36), ("8thT", 0x18),
  ("16th", 0x12), ("16thD", 0x1B), ("32nd", 0x09)]

/-- Shorthands that set one of the game's own instruments, in the order of the instruments. -/
def instrumentNames : List String := [
  "Noise", "Rain", "Timpani", "SquareWave", "SawWave", "Clink", "WobblyLead", "CompoundSaw",
  "Tweet", "StringsA", "StringsB", "Trombone", "Cymbal", "Ocarina", "Chimes", "Harp", "Splash",
  "Trumpet", "Horn", "SnareA", "SnareB", "Choir", "Flute", "Oof", "Piano"]

/-! ### Numbers -/

/-- A number of 32 bits. -/
def numberChars? : List Char → Option Nat
  | '$' :: digits => numeral? 16 UInt32.size digits
  | '0' :: 'x' :: digits => numeral? 16 UInt32.size digits
  | c :: rest => if c.isDigit then numeral? 10 UInt32.size (c :: rest) else none
  | [] => none

def number? (token : String) : Option Nat := numberChars? token.toList

/-- A byte as a number. -/
def byteToken (byte : UInt8) : String := "$" ++ hexByte byte

/-- A word as a number. -/
def wordToken (word : UInt16) : String := "$" ++ hexWord word

/-! ### Notes -/

/-- The token of a note, a tie, a rest or, for zero, the end marker. -/
def noteToken? (pitch : UInt8) : Option String :=
  if pitch = 0 then some endToken
  else if pitch = tiePitch then some tieToken
  else if pitch = restPitch then some restToken
  else if lowestPitch ≤ pitch ∧ pitch ≤ highestPitch then
    let step := pitch.toNat - lowestPitch.toNat
    some (stepTokens.getD (step % 12) "" ++ toString (step / 12 + 1))
  else none

/-- A token that ends in `s` after a digit has its sharp at the end; the token without it, and
whether it was there. -/
def cutSharp (token : List Char) : List Char × Bool :=
  match token.reverse with
  | 's' :: d :: rest => if d.isDigit then ((d :: rest).reverse, true) else (token, false)
  | _ => (token, false)

/-- The step that a letter names, one higher for a sharp at the end of the token. Only letters that
have a sharp may take one. -/
def step? (letters : List Char) (sharp : Bool) : Option Nat :=
  match stepTokens.idxOf? (String.ofList letters) with
  | none => none
  | some step =>
    if !sharp then some step
    else if stepTokens[step + 1]? = some (String.ofList (letters ++ ['s'])) then some (step + 1)
    else none

/-- The pitch of a note token; zero for the end marker.
The sharp stands before or after the octave. -/
def pitch? (token : String) : Option UInt8 :=
  if token = tieToken then some tiePitch
  else if token = restToken then some restPitch
  else if token = endToken then some 0
  else
    let (body, sharp) := cutSharp token.toList
    let letters := body.takeWhile (!·.isDigit)
    let octave := body.dropWhile (!·.isDigit)
    match step? letters sharp, numeral? 10 256 octave with
    | some step, some octave =>
      if 1 ≤ octave ∧ octave ≤ 6 then
        some (UInt8.ofNat (lowestPitch.toNat + (octave - 1) * 12 + step))
      else none
    | _, _ => none

/-! ### Durations -/

/-- The named duration of a value. -/
def durationName? (duration : UInt8) : Option String :=
  (durations.find? (·.2 == duration)).map ("!" ++ ·.1)

/-- The value of a named duration. The mark in front may be missing. -/
def duration? (token : String) : Option UInt8 :=
  let name := match token.toList with
    | '!' :: name => String.ofList name
    | _ => token
  (durations.find? (·.1 == name)).map (·.2)

/-- A duration by its name, or as a number. -/
def durationToken (duration : UInt8) : String :=
  (durationName? duration).getD (byteToken duration)

/-! ### Commands and instruments -/

def commandName? (opcode : UInt8) : Option String :=
  (CommandType.ofOpcode? opcode).map CommandType.name

/-- The opcode of a named command. -/
def opcode? (name : String) : Option UInt8 :=
  ((CommandType.all.map CommandType.name).idxOf? name).map fun index =>
    UInt8.ofNat (firstOpcode.toNat + index)

def instrumentName? (id : UInt8) : Option String := instrumentNames[id.toNat]?

/-- The instrument that a shorthand sets. -/
def instrument? (name : String) : Option UInt8 := (instrumentNames.idxOf? name).map UInt8.ofNat

end SnesMusic.Assembly
