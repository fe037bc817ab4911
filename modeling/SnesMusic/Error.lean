import SnesMusic.Bank
import SnesMusic.Text.Hex

/-!
# Errors

Every way an operation on music can fail, each with its cause, the class a caller reacts to and the
wording shown to the user.
-/
namespace SnesMusic

open Text

/-- What callers tell apart when they react to a failure. -/
inductive ErrorClass where
  | outOfRange
  | malformed
  | precondition
  | sizeOverflow
  | host
  deriving DecidableEq, Repr

/-- The lists that are accessed by an index. -/
inductive Indexed where
  | songAddress
  | loopSegment
  | song
  | instrument
  | sample
  deriving DecidableEq, Repr

def Indexed.name : Indexed → String
  | .songAddress => "song address"
  | .loopSegment => "loop segment"
  | .song => "song"
  | .instrument => "instrument"
  | .sample => "sample"

/-- Values of an event that no bytecode stands for. -/
inductive Unencodable where
  | pitch (value : UInt8)
  | duration (value : UInt8)
  | velocity (value : UInt8)
  | opcode (value : UInt8)
  deriving DecidableEq, Repr

def Unencodable.name : Unencodable → String
  | .pitch value => s!"note pitch 0x{hexByte value}"
  | .duration value => s!"duration 0x{hexByte value}"
  | .velocity value => s!"velocity 0x{hexByte value}"
  | .opcode value => s!"command opcode 0x{hexByte value}"

/-- What a sound file was being read for when a fault arose. -/
inductive WaveContext where
  | header
  | pcmFormat
  | mono
  | sampleSize
  | bitsPerSample
  deriving DecidableEq, Repr

def WaveContext.name : WaveContext → String
  | .header => "RIFF header"
  | .pcmFormat => "PCM format"
  | .mono => "mono"
  | .sampleSize => "sample size"
  | .bitsPerSample => "bits per sample"

/-- What is wrong at a place of a sound file. -/
inductive WaveFault where
  /-- The bytes are not those expected, or too few. -/
  | unexpected
  /-- None of the allowed byte strings is there. -/
  | noAlternative
  /-- The chunk or file ends in the middle of a field. -/
  | ended
  /-- The stated size reaches past the end of the file. -/
  | tooLarge
  /-- There is no sound data, or it comes before its format. -/
  | noData
  /-- The place where the reading of a part began. -/
  | within (context : WaveContext)
  deriving DecidableEq, Repr

def WaveFault.name : WaveFault → String
  | .unexpected => "(Tag)"
  | .noAlternative => "(Alt)"
  | .ended => "(Eof)"
  | .tooLarge => "(TooLarge)"
  | .noData => "(Fail)"
  | .within context => s!"in {context.name}"

/-- The faults of one failed reading with their offsets in the file, innermost first. -/
abbrev WaveTrace := List (Nat × WaveFault)

/-- The places of a trace, as one line. -/
def WaveTrace.text (trace : WaveTrace) : String :=
  match trace.map fun (offset, fault) => s!"0x{hexLower offset} {fault.name}" with
  | [] => ""
  | places => "Parse error at position " ++ ", ".intercalate places

/-- Ways in which bytecode, tables, sound files and assembly text cannot be interpreted. -/
inductive Malformation where
  | truncatedCommand (opcode : UInt8) (track : UInt16)
  | missingLoopTarget (song : UInt16)
  | unterminatedSegments (song : UInt16)
  | shortSongTable (table : UInt16)
  | truncatedInstruments
  | wave (trace : WaveTrace)
  | addressValue (text : String)
  | loopValue (text : String)
  | wideValue (text : String)
  | unknownValue (text : String)
  | meaninglessByte (byte : UInt8)
  | durationRange (text : String)
  | velocityRange (text : String)
  | brokenCall (text : String)
  | surplusParameters (call : String)
  | parameterCount (call : String) (expected given : Nat)
  | sourceErrors (count : Nat) (path : String)
  deriving DecidableEq, Repr

def Malformation.message : Malformation → String
  | .truncatedCommand opcode track =>
    s!"truncated command 0x{hexByte opcode} in track ${hexWord track}"
  | .missingLoopTarget song => s!"song ${hexWord song} is missing its loop target"
  | .unterminatedSegments song => s!"unterminated segment list in song ${hexWord song}"
  | .shortSongTable table => s!"song pointer table at ${hexWord table} is too small"
  | .truncatedInstruments => "instrument table is truncated"
  | .wave trace => trace.text ++ "\nWAV must be uncompressed 16-bit mono or 8-bit mono."
  | .addressValue text => s!"invalid ARAM address `{text}`"
  | .loopValue text => s!"invalid loop segment `{text}`"
  | .wideValue text => s!"value `{text}` does not fit in a byte"
  | .unknownValue text => s!"unknown value `{text}`"
  | .meaninglessByte byte => s!"byte ${hexByte byte} has no meaning in a track"
  | .durationRange text => s!"duration `{text}` is out of range"
  | .velocityRange text => s!"velocity `{text}` is out of range"
  | .brokenCall text => s!"invalid macro call `{text}`"
  | .surplusParameters call => s!"too many parameters for %{call}"
  | .parameterCount call expected given => s!"%{call} takes {expected} parameter(s), got {given}"
  | .sourceErrors count path => s!"{count} error(s) in `{path}`"

/-- A place with a fixed capacity. -/
inductive Store where
  | bank (b : Bank)
  | sampleSlot
  deriving DecidableEq, Repr

def Store.name : Store → String
  | .bank b => b.name
  | .sampleSlot => "sample slot"

/-- Failures of the host's files. -/
inductive HostFault where
  | notFound
  | notText
  | exists
  | isDirectory
  | notDirectory
  | other (text : String)
  deriving DecidableEq, Repr

def HostFault.message : HostFault → String
  | .notFound => "No such file or directory (os error 2)"
  | .notText => "stream did not contain valid UTF-8"
  | .exists => "File exists (os error 17)"
  | .isDirectory => "Is a directory (os error 21)"
  | .notDirectory => "Not a directory (os error 20)"
  | .other text => text

/-- Why an operation failed. -/
inductive MusicError where
  | outOfRange (offset length size : Nat)
  | addressNotFound (address : UInt16) (bank : UploadBank)
  | invalidIndex (what : Indexed) (index : Nat)
  | malformed (cause : Malformation)
  | circularReference (address : UInt16)
  | depthExceeded (limit : Nat)
  | unknownCall (name : String)
  | unencodable (what : Unencodable)
  | state
  | imageNotLoaded
  | nothingLoaded
  | vanillaProtected (index : Nat)
  | overflow (store : Store) (needed limit : Nat)
  | host (fault : HostFault)
  deriving DecidableEq, Repr

namespace MusicError

/-- The class of an error. -/
def errorClass : MusicError → ErrorClass
  | .outOfRange .. | .addressNotFound .. | .invalidIndex .. => .outOfRange
  | .malformed _ | .circularReference _ | .depthExceeded _ | .unknownCall _ | .unencodable _
  | .state => .malformed
  | .imageNotLoaded | .nothingLoaded | .vanillaProtected _ => .precondition
  | .overflow .. => .sizeOverflow
  | .host _ => .host

/-- The wording of an error. -/
def message : MusicError → String
  | .outOfRange offset length size =>
    s!"offset 0x{hexLower offset} (+{length}) is outside the {size} byte image"
  | .addressNotFound address bank =>
    s!"ARAM address ${hexWord address} not found in SPC bank {bank.id}"
  | .invalidIndex what index => s!"invalid {what.name} index {index}"
  | .malformed cause => cause.message
  | .circularReference address => s!"circular reference detected at ${hexWord address}"
  | .depthExceeded limit => s!"maximum parse depth {limit} exceeded"
  | .unknownCall name => s!"unknown macro `{name}`"
  | .unencodable what => s!"cannot encode {what.name}"
  | .state => "failed to parse music state"
  | .imageNotLoaded => "ROM is not loaded"
  | .nothingLoaded => "no music data loaded"
  | .vanillaProtected index => s!"cannot delete vanilla song {index}"
  | .overflow store needed limit =>
    s!"{store.name} bank overflow ({needed} bytes needed, limit {limit})"
  | .host fault => fault.message

end MusicError
end SnesMusic
