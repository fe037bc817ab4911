import SnesMusic.Assembly.Import
import SnesMusic.Soundtrack.Edit
import SnesMusic.Tool.FileName
import SnesMusic.Tool.Music

/-!
# Building an image with new music

Songs are read from assembly and put into the image's soundtrack, samples are replaced by sound
files, and the image is written under another name. Nothing is written when any of it fails.
-/
namespace SnesMusic.Tool

open Text

namespace Build

structure Options where
  input : String
  songs : List String
  /-- The name of the image that is written, by default made from that of the one that was read. -/
  output : Option String := none
  bank : Bank := .overworld
  /-- Whether a song replaces one of the same name. -/
  replace : Bool := false
  samples : List (Nat × String) := []
  strict : Bool := false
  ignoreErrors : Bool := false
  limits : List (Bank × Nat) := []
  deriving DecidableEq, Repr

/-- The name of the image that is written. -/
def Options.target (o : Options) : String :=
  o.output.getD (FileName.withExtension o.input "music.sfc")

def Options.importOptions (o : Options) : Assembly.ImportOptions :=
  { strict := o.strict, bank := o.bank }

/-- Reads a song from a file. A song without a label is named after the file. -/
def importFile (file : String) (options : Assembly.ImportOptions) : Script Assembly.Imported := do
  let source ← Script.readText file
  let result ← Script.ofReport (Assembly.importSong source options)
  if result.song.name.isEmpty then
    let name := (FileName.stem? file).getD result.song.name
    return { result with song := { result.song with name } }
  else return result

/-- The messages about a file that was read. -/
def messageLines (file : String) (result : Assembly.Imported) : List LogLine :=
  (result.warnings.map fun w => .warning s!"{file}: {w}") ++
    result.errors.map fun e => .error s!"{file}: {e}"

/-- Reads a song; none when it fails and failures are ignored. -/
def readSong (o : Options) (file : String) : Script (Option Song) := do
  Script.tell (.detail s!"Reading file `{file}`")
  match ← (importFile file o.importOptions).attempt with
  | .error e =>
    if !o.ignoreErrors then Script.fail e
    else
      Script.tell (.warning s!"Skipping `{file}`: {e.message}")
      return none
  | .ok result =>
    Script.tellAll (messageLines file result)
    if !result.errors.isEmpty && !o.ignoreErrors then
      Script.fail (.malformed (.sourceErrors result.errors.length file))
    else return some result.song

/-- The line about a song that was put into the soundtrack. -/
def placedLine (placed : PlacedSong) (name : String) : LogLine :=
  let number := placed.index + 1
  if placed.replaced then
    let kind := if isVanilla placed.index then "vanilla" else "custom"
    .information s!"Replaced {kind} song {number} `{name}`"
  else .information s!"Added song {number} `{name}`"

/-- Puts the songs of files into the soundtrack. -/
def addSongs (o : Options) (music : Soundtrack) : List String → Script Soundtrack
  | [] => return music
  | file :: rest => do
    match ← readSong o file with
    | none => addSongs o music rest
    | some song =>
      let placed ← Script.ofExcept (music.placeSong song o.replace)
      Script.tell (placedLine placed song.name)
      addSongs o placed.soundtrack rest

/-- Replaces samples by the sound of files. -/
def replaceSamples (music : Soundtrack) : List (Nat × String) → Script Soundtrack
  | [] => return music
  | (index, file) :: rest => do
    let content ← Script.readFile file
    let music ← Script.ofReport (music.replaceSample index content.toList)
    Script.tell (.information s!"Encoded `{file}` into sample {hexUpper 2 index}")
    replaceSamples music rest

/-- The use of a bank that will be saved. -/
def usageLines (music : Soundtrack) (bank : Bank) : List LogLine :=
  let usage := music.usage bank
  usage.notices.map .ofNotice ++
    .information (s!"{bank.name} bank: {usage.value.used}/{usage.value.total} bytes " ++
      s!"({usage.value.percent.toTenths}%)") :: adviceLines bank usage.value

end Build

/-- Builds an image with new music. -/
def build (o : Build.Options) : Script Unit := do
  let (image, music) ← loadMusic o.input o.limits
  let music ← Build.addSongs o music o.songs
  let music ← Build.replaceSamples music o.samples
  Script.tellAll (music.dirtyBanks.flatMap (Build.usageLines music))
  let saving := music.save image
  Script.tellAll (saving.notices.map .ofNotice)
  Script.ofExcept saving.outcome
  Script.writeFile o.target saving.image.data
  Script.tell (.information s!"Wrote `{o.target}`")

end SnesMusic.Tool
