import SnesMusic.Text.Blank
import SnesMusic.Text.Cut
import SnesMusic.Text.Hex
import SnesMusic.Text.Unsigned
import SnesMusic.Text.Glob
import SnesMusic.Number.Single
import SnesMusic.Song.Timing
import SnesMusic.Song.Instrument
import SnesMusic.Upload
import SnesMusic.Bytecode.Size
import SnesMusic.Bytecode.SongReader
import SnesMusic.Audio.Brr
import SnesMusic.Audio.Wave
import SnesMusic.Assembly.Export
import SnesMusic.Assembly.Import
import SnesMusic.Soundtrack.Space
import SnesMusic.Soundtrack.Edit
import SnesMusic.Json.Reader
import SnesMusic.Json.Printer
import SnesMusic.Soundtrack.State
import SnesMusic.Tool.Filters
import SnesMusic.Tool.Argument
import SnesMusic.Tool.FileName
import SnesMusic.Tool.Script
import SnesMusic.Tool.Workspace
import SnesMusic.Tool.Music
import SnesMusic.Tool.Inspect
import SnesMusic.Tool.Extract
import SnesMusic.Tool.Build
import SnesMusic.Tool.CommandLine
import SnesMusic.Main
import SnesMusic.Proofs.Soundtrack.KeptMusic
import SnesMusic.Proofs.Assembly.RoundTrip
import SnesMusic.Proofs.Assembly.RawBytes
import SnesMusic.Proofs.Bytecode.Encodable
import SnesMusic.Proofs.Bytecode.Reencoding
import SnesMusic.Proofs.Soundtrack.FailedSave
import SnesMusic.Proofs.Soundtrack.Neighbours
import SnesMusic.Proofs.Soundtrack.SongTable
import SnesMusic.Proofs.Soundtrack.SongCount
import SnesMusic.Proofs.Bytecode.Sizing
import SnesMusic.Proofs.Soundtrack.SavedBlock
import SnesMusic.Proofs.Soundtrack.SpaceReport
import SnesMusic.Proofs.Soundtrack.DirtyBanks
import SnesMusic.Proofs.Soundtrack.Replacing
import SnesMusic.Proofs.Soundtrack.InstrumentTable
import SnesMusic.Proofs.Soundtrack.SongSlots
import SnesMusic.Proofs.Assembly.Strictness
import SnesMusic.Proofs.Audio.Reencoding
import SnesMusic.Proofs.Audio.LeastError
import SnesMusic.Proofs.Bytecode.CallCycles
import SnesMusic.Proofs.Soundtrack.HeadedSaving
import SnesMusic.Proofs.Soundtrack.Restoring
import SnesMusic.Proofs.Ranges.Loading
import SnesMusic.Proofs.Bytecode.Playing
import SnesMusic.Proofs.Bytecode.Effects
import SnesMusic.Proofs.Bytecode.CallDepth
import SnesMusic.Proofs.Bytecode.TickBudget
import SnesMusic.Proofs.Bytecode.Compaction
import SnesMusic.Proofs.Ranges.Ticks
import SnesMusic.Proofs.Bytecode.Moving
import SnesMusic.Proofs.Audio.WaveFile
import SnesMusic.Proofs.Audio.ImportedLoops
import SnesMusic.Proofs.Soundtrack.SampleSlots
import SnesMusic.Proofs.Addresses
import SnesMusic.Proofs.Soundtrack.LoadedSongs
import SnesMusic.Proofs.Soundtrack.FailedLoad
import SnesMusic.Proofs.Soundtrack.TableSlots
import SnesMusic.Proofs.Soundtrack.TableLength
import SnesMusic.Proofs.Soundtrack.SpaceUsed
import SnesMusic.Proofs.Audio.Streams
import SnesMusic.Proofs.Assembly.HeaderComments
