import SnesMusic.Assembly.Export
import SnesMusic.Audio.Wave
import SnesMusic.Soundtrack.State
import SnesMusic.Tool.FileName
import SnesMusic.Tool.Filters
import SnesMusic.Tool.Music

/-!
# Extracting music to files

Songs as assembly or bytecode, samples as sound files or in encoded form, and the state of the
whole.
-/
namespace SnesMusic.Tool

open Text

namespace Extract

structure Options where
  input : String
  folder : String := "music"
  includes : List String := []
  /-- No folders inside of the folder. -/
  flat : Bool := false
  /-- Songs as bytecode and encoded samples. -/
  raw : Bool := false
  /-- Whether the state is written. -/
  state : Bool := true
  limits : List (Bank × Nat) := []
  deriving DecidableEq, Repr

/-- A number with at least two digits. -/
def twoDigits (n : Nat) : String := if n < 10 then "0" ++ toString n else toString n

/-- Writes a file, if its name is wanted; whether it was. -/
def emit (o : Options) (folder name extension : String) (content : Content) : Script Bool := do
  if !({ includes := o.includes } : Filters).accepts name then return false
  let folder := if o.flat then o.folder else FileName.inFolder o.folder folder
  if !o.flat then Script.ensureFolder folder
  let file := FileName.inFolder folder name ++ "." ++ extension
  Script.tell (.detail s!"writing `{file}`")
  Script.writeFile file content
  return true

def textContent (text : String) : Content := text.toUTF8.data

/-- Writes a song. The file of a song that cannot be encoded stays empty. -/
def emitSong (o : Options) (song : Song) (index : Nat) : Script Bool := do
  let name := twoDigits (index + 1) ++ "_" ++ Assembly.songLabel song.name
  if !o.raw then
    emit o "SONGS" name "asm" (textContent (Assembly.exportSong song {}))
  else match song.encode song.address with
    | .ok encoding => emit o "SONGS" name "bin" encoding.data.toArray
    | .error e =>
      let written ← emit o "SONGS" name "bin" #[]
      if written then Script.tell (.warning s!"Cannot encode `{song.name}`: {e.message}")
      return written

/-- The sound of a sample. -/
def sampleWave (sample : Sample) : Wave :=
  { rate := playbackRate
    samples := sample.pcm
    loopStart := if sample.loops then some (UInt32.ofNat sample.loopPoint) else none }

def emitSample (o : Options) (sample : Sample) (index : Nat) : Script Bool :=
  let name := "SMP_" ++ hexUpper 2 index
  if o.raw then emit o "SAMPLES" name "brr" sample.encoded.toArray
  else emit o "SAMPLES" name "wav" (sampleWave sample).write.toArray

/-- Writes things in order and counts those that were wanted. -/
def countEach {α : Type} (step : α → Nat → Script Bool) (count : Nat) :
    List (α × Nat) → Script Nat
  | [] => return count
  | (item, index) :: rest => do
    let written ← step item index
    countEach step (if written then count + 1 else count) rest

end Extract

/-- Extracts the music of an image. -/
def extract (o : Extract.Options) : Script Unit := do
  let (_, music) ← loadMusic o.input o.limits
  Script.ensureFolder o.folder
  let songs ← Extract.countEach (Extract.emitSong o) 0 music.songs.zipIdx
  let samples ← Extract.countEach (Extract.emitSample o) 0 music.heard
  if o.state then
    let file := FileName.inFolder o.folder "music.json"
    Script.tell (.detail s!"writing `{file}`")
    Script.writeFile file (Extract.textContent music.toJson)
  Script.tell (.information s!"Extracted {songs} songs and {samples} samples to `{o.folder}`")

end SnesMusic.Tool
