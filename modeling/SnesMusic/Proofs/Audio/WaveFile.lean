import SnesMusic.Audio.Wave
import SnesMusic.Proofs.Bytecode.SongLayout

/-!
# Sound files as chunks

A file is a header and a list of chunks. Reading takes the chunks one by one and passes over those
with unknown names; the chunks that are written tell the rate, the loop and the samples again. Main
statements: the sizes that are stated for a sound are those of what follows (`write_eq_fileOf`,
`length_write`), and the sound is read back from its file, also with any unknown chunks between the
known ones (`ofFile_write`).
-/
namespace SnesMusic.Wave

open LittleEndian

/-! ### Chunks -/

theorem length_chunk {name : List UInt8} (named : name.length = 4) (size : Nat)
    (body : List UInt8) : (chunk name size body).length = 8 + body.length := by
  rw [chunk, writeLong, List.length_append, List.length_append, length_longBytes, named]

/-- Content of odd size is followed by one more byte. -/
theorem length_padding (size : Nat) (padding : UInt8) :
    (if size % 2 = 1 then [padding] else []).length = size % 2 := by
  rcases Nat.mod_two_eq_zero_or_one size with even | odd
  · rw [if_neg (by omega), List.length_nil, even]
  · rw [if_pos odd, List.length_singleton, odd]

/-- A chunk of a file: its name, its content, and the byte that pads content of odd size. -/
structure Chunk where
  name : List UInt8
  body : List UInt8
  padding : UInt8 := 0
  named : name.length = 4 := by rfl
  deriving DecidableEq

namespace Chunk

/-- The chunk as it stands in a file. It states the size of its content. -/
def bytes (c : Chunk) : List UInt8 :=
  chunk c.name c.body.length c.body ++ if c.body.length % 2 = 1 then [c.padding] else []

/-- Whether reading looks into the chunk. -/
def isKnown (c : Chunk) : Bool :=
  c.name == formatName || c.name == samplerName || c.name == dataName

theorem length_bytes (c : Chunk) : c.bytes.length = 8 + c.body.length + c.body.length % 2 := by
  rw [bytes, List.length_append, length_chunk c.named, length_padding]

/-- Content of even size is not padded. -/
theorem bytes_of_even {c : Chunk} {size : Nat} (length : c.body.length = size)
    (even : size % 2 = 0) : c.bytes = chunk c.name size c.body := by
  rw [bytes, length, if_neg (by omega), List.append_nil]

end Chunk

def formatChunk (rate : UInt32) : Chunk := { name := formatName, body := formatBody rate }

def samplerChunk (w : Wave) (start : UInt32) : Chunk :=
  { name := samplerName, body := samplerBody w start }

def dataChunk (samples : List Int16) : Chunk := { name := dataName, body := sampleBytes samples }

/-- The chunks that a sound is written as. -/
def chunks (w : Wave) : List Chunk :=
  match w.loopStart with
  | none => [formatChunk w.rate, dataChunk w.samples]
  | some start => [formatChunk w.rate, samplerChunk w start, dataChunk w.samples]

/-- What the header of a file of chunks is followed by. -/
def content (list : List Chunk) : List UInt8 := waveName ++ list.flatMap Chunk.bytes

/-- The file of a list of chunks. Its header states the size of what follows. -/
def fileOf (list : List Chunk) : List UInt8 := chunk riffName (content list).length (content list)

theorem filter_isKnown_chunks (w : Wave) : w.chunks.filter Chunk.isKnown = w.chunks := by
  rw [chunks]
  cases w.loopStart with
  | none => rfl
  | some start => rfl

/-! ### Stated sizes -/

theorem length_formatBody (rate : UInt32) : (formatBody rate).length = formatSize := rfl

theorem length_samplerBody (w : Wave) (start : UInt32) :
    (samplerBody w start).length = samplerSize := rfl

theorem length_sampleBytes (w : Wave) : (sampleBytes w.samples).length = w.dataSize := by
  rw [sampleBytes, ← List.flatMap_map, length_flatMap_bytes, List.length_map, dataSize,
    Nat.mul_comm]

theorem bytes_formatChunk (rate : UInt32) :
    (formatChunk rate).bytes = chunk formatName formatSize (formatBody rate) :=
  Chunk.bytes_of_even (length_formatBody rate) rfl

theorem bytes_samplerChunk (w : Wave) (start : UInt32) :
    (samplerChunk w start).bytes = chunk samplerName samplerSize (samplerBody w start) :=
  Chunk.bytes_of_even (length_samplerBody w start) rfl

theorem bytes_dataChunk (w : Wave) :
    (dataChunk w.samples).bytes = chunk dataName w.dataSize (sampleBytes w.samples) :=
  Chunk.bytes_of_even (length_sampleBytes w) (Nat.mul_mod_left _ _)

theorem length_bytes_formatChunk (rate : UInt32) :
    (formatChunk rate).bytes.length = 8 + formatSize := by
  rw [bytes_formatChunk, length_chunk rfl, length_formatBody]

theorem length_bytes_samplerChunk (w : Wave) (start : UInt32) :
    (samplerChunk w start).bytes.length = 8 + samplerSize := by
  rw [bytes_samplerChunk, length_chunk rfl, length_samplerBody]

theorem length_bytes_dataChunk (w : Wave) :
    (dataChunk w.samples).bytes.length = 8 + w.dataSize := by
  rw [bytes_dataChunk, length_chunk rfl, length_sampleBytes]

theorem length_content (list : List Chunk) :
    (content list).length = 4 + (list.flatMap Chunk.bytes).length := by
  rw [content, List.length_append]
  rfl

/-- The size that is stated for a sound is that of its chunks. -/
theorem length_content_chunks (w : Wave) : (content w.chunks).length = w.statedSize := by
  rw [length_content, chunks, statedSize]
  cases w.loopStart with
  | none =>
    simp only [List.flatMap_cons, List.flatMap_nil, List.length_append, List.length_nil,
      length_bytes_formatChunk, length_bytes_dataChunk, Option.isSome_none, Bool.false_eq_true,
      if_false]
    omega
  | some start =>
    simp only [List.flatMap_cons, List.flatMap_nil, List.length_append, List.length_nil,
      length_bytes_formatChunk, length_bytes_samplerChunk, length_bytes_dataChunk,
      Option.isSome_some, if_true]
    omega

/-- A sound is written chunk by chunk, and all sizes that are stated are those of what follows. -/
theorem write_eq_fileOf (w : Wave) : w.write = fileOf w.chunks := by
  rw [fileOf, length_content_chunks, write, content, chunks]
  congr 1
  cases w.loopStart with
  | none => simp [bytes_formatChunk, bytes_dataChunk]
  | some start => simp [bytes_formatChunk, bytes_samplerChunk, bytes_dataChunk]

theorem length_fileOf (list : List Chunk) :
    (fileOf list).length = 12 + (list.flatMap Chunk.bytes).length := by
  rw [fileOf, length_chunk rfl, length_content]
  omega

theorem length_write (w : Wave) : w.write.length = 8 + w.statedSize := by
  rw [write_eq_fileOf, fileOf, length_chunk rfl, length_content_chunks]

/-- The header of a file begins with its name and the stated size. -/
theorem stated_write (w : Wave) :
    (w.write.drop 4).take 4 = longBytes (UInt32.ofNat w.statedSize) := rfl

/-! ### Reading chunks -/

/-- One turn of the reader, with the bytes of a chunk's name and size in front. -/
theorem readChunks_cons {n₀ n₁ n₂ n₃ s₀ s₁ s₂ s₃ : UInt8} {size : Nat}
    (stated : (long s₀ s₁ s₂ s₃).toNat = size) (p : Progress) (offset : Nat) (rest : List UInt8) :
    readChunks p { offset, bytes := n₀ :: n₁ :: n₂ :: n₃ :: s₀ :: s₁ :: s₂ :: s₃ :: rest } =
      match ({ offset := offset + 8, bytes := rest } : Cursor).take size with
      | .error trace => .error trace
      | .ok (chunk, _) =>
        match readChunk p [n₀, n₁, n₂, n₃] chunk with
        | .error trace => .error trace
        | .ok p => readChunks p
          { offset := offset + 8 + size + size % 2, bytes := rest.drop (size + size % 2) } := by
  subst stated
  exact (readChunks.eq_def p _).trans rfl

theorem take_append (offset : Nat) (front rest : List UInt8) :
    ({ offset, bytes := front ++ rest } : Cursor).take front.length =
      .ok ({ offset, bytes := front }, { offset := offset + front.length, bytes := rest }) := by
  simp [Cursor.take, Cursor.skip]

/-- The reader takes a chunk that stands in front, and goes on behind it with what it told. -/
theorem readChunks_append {c : Chunk} (fits : c.body.length < UInt32.size) (p : Progress)
    (offset : Nat) (rest : List UInt8) :
    readChunks p { offset, bytes := c.bytes ++ rest } =
      match readChunk p c.name { offset := offset + 8, bytes := c.body } with
      | .error trace => .error trace
      | .ok p => readChunks p { offset := offset + c.bytes.length, bytes := rest } := by
  rw [c.length_bytes]
  obtain ⟨name, body, padding, named⟩ := c
  have padded := length_padding body.length padding
  generalize gap : (if body.length % 2 = 1 then [padding] else [] : List UInt8) = pad at padded
  have behind : (body ++ (pad ++ rest)).drop (body.length + body.length % 2) = rest := by
    rw [← padded, ← List.drop_drop, List.drop_left, List.drop_left]
  match name, named with
  | [n₀, n₁, n₂, n₃], _ =>
    have shape : (⟨[n₀, n₁, n₂, n₃], body, padding, rfl⟩ : Chunk).bytes ++ rest =
        [n₀, n₁, n₂, n₃] ++ (longBytes (UInt32.ofNat body.length) ++ (body ++ (pad ++ rest))) := by
      rw [Chunk.bytes, chunk, writeLong, gap]
      simp only [List.append_assoc]
    have stated := congrArg UInt32.toNat (long_longBytes (UInt32.ofNat body.length))
    have size : (UInt32.ofNat body.length).toNat = body.length := UInt32.toNat_ofNat_of_lt fits
    rw [shape, longBytes]
    simp only [List.cons_append, List.nil_append]
    rw [readChunks_cons (stated.trans size), take_append]
    simp only [behind, Nat.add_assoc]

/-- What the chunks of a list tell one after the other, wherever they stand in a file. -/
inductive Tells : Progress → List Chunk → Progress → Prop where
  | nil (p : Progress) : Tells p [] p
  | cons {p q r : Progress} {c : Chunk} {rest : List Chunk}
      (first : ∀ offset, readChunk p c.name { offset, bytes := c.body } = .ok q)
      (later : Tells q rest r) : Tells p (c :: rest) r

theorem readChunk_of_unknown {c : Chunk} (unknown : c.isKnown = false) (p : Progress)
    (cursor : Cursor) : readChunk p c.name cursor = .ok p := by
  simp only [Chunk.isKnown, Bool.or_eq_false_iff, beq_eq_false_iff_ne] at unknown
  obtain ⟨⟨format, sampler⟩, data⟩ := unknown
  rw [readChunk, if_neg format, if_neg sampler, if_neg data]

/-- Chunks with unknown names tell nothing. -/
theorem Tells.of_filter {p q : Progress} {list : List Chunk}
    (known : Tells p (list.filter Chunk.isKnown) q) : Tells p list q := by
  induction list generalizing p with
  | nil => exact known
  | cons c rest ih =>
    cases kind : c.isKnown with
    | false =>
      rw [List.filter_cons_of_neg (by simp [kind])] at known
      exact .cons (fun offset => readChunk_of_unknown kind p _) (ih known)
    | true =>
      rw [List.filter_cons_of_pos kind] at known
      cases known with
      | cons first later => exact .cons first (ih later)

/-- The reader goes through all chunks of a list. -/
theorem readChunks_of_tells {p q : Progress} {list : List Chunk} (tells : Tells p list q)
    (fits : (list.flatMap Chunk.bytes).length < UInt32.size) (offset : Nat) :
    ∃ stop, readChunks p { offset, bytes := list.flatMap Chunk.bytes } = .ok (q, stop) := by
  induction tells generalizing offset with
  | nil p => exact ⟨_, by rw [List.flatMap_nil, readChunks]⟩
  | @cons p q r c rest first later ih =>
    rw [List.flatMap_cons, List.length_append, c.length_bytes] at fits
    obtain ⟨stop, read⟩ := ih (by omega) (offset + c.bytes.length)
    refine ⟨stop, ?_⟩
    rw [List.flatMap_cons, readChunks_append (by omega), first]
    exact read

/-! ### What is written -/

theorem expect_append (offset : Nat) (front rest : List UInt8) :
    ({ offset, bytes := front ++ rest } : Cursor).expect front =
      .ok { offset := offset + front.length, bytes := rest } := by
  simp [Cursor.expect, Cursor.skip]

theorem long_append (offset : Nat) (w : UInt32) (rest : List UInt8) :
    ({ offset, bytes := longBytes w ++ rest } : Cursor).long =
      .ok (w, { offset := offset + 4, bytes := rest }) := by
  simp only [longBytes, List.cons_append, List.nil_append, Cursor.long, long_longBytes]

theorem within_ok {α : Type} (c : Cursor) (context : WaveContext) (a : α) :
    c.within context (.ok a) = .ok a := rfl

theorem readFormat_formatBody (p : Progress) (offset : Nat) (rate : UInt32) :
    readFormat p { offset, bytes := formatBody rate } = .ok { p with sampleSize := 2, rate } := by
  have shape : formatBody rate =
      [1, 0] ++ ([1, 0] ++ (longBytes rate ++ (longBytes (2 * rate) ++ [2, 0, 16, 0]))) := rfl
  have size : ∀ offset, readSampleSize { offset, bytes := [2, 0, 16, 0] } =
      .ok (2, { offset := offset + 2, bytes := [16, 0] }) := fun offset => rfl
  rw [readFormat, shape]
  simp only [expect_append, within_ok, long_append, size, bind, Except.bind]
  rfl

theorem readSampler_samplerBody (p : Progress) (offset : Nat) (w : Wave) (start : UInt32) :
    readSampler p { offset, bytes := samplerBody w start } =
      .ok { p with loopStart := some start } := by
  let count := UInt32.ofNat w.samples.length
  let last := max (if count = 0 then 0 else count - 1) start
  let front := [0, 0, 1000000000 / max w.rate 1, 60, 0, 0, 0].flatMap longBytes
  have shape : samplerBody w start = front ++ (longBytes 1 ++ (longBytes 0 ++ (longBytes 0 ++
      (longBytes 0 ++ (longBytes start ++ [last, 0, 0].flatMap longBytes))))) := rfl
  have taken : ∀ rest, ({ offset, bytes := front ++ rest } : Cursor).take 28 =
      .ok ({ offset, bytes := front }, { offset := offset + 28, bytes := rest }) :=
    take_append offset front
  rw [readSampler, shape]
  simp only [taken, long_append, bind, Except.bind]
  rfl

theorem samples_sampleBytes (samples : List Int16) :
    samplesOf? 2 (sampleBytes samples) = some samples := by
  rw [samplesOf?, sampleBytes, ← List.flatMap_map, words_flatMap_bytes, List.map_map]
  exact congrArg some (List.map_id samples)

/-- The chunks of a sound tell all of it. -/
theorem tells_chunks (w : Wave) :
    Tells {} w.chunks
      { sampleSize := 2, rate := w.rate, samples := some w.samples, loopStart := w.loopStart } := by
  have format : ∀ offset, readChunk {} formatName { offset, bytes := formatBody w.rate } =
      .ok { sampleSize := 2, rate := w.rate } := by
    intro offset
    rw [readChunk, if_pos rfl, readFormat_formatBody]
  have data : ∀ (p : Progress) (offset : Nat), p.sampleSize = 2 →
      readChunk p dataName { offset, bytes := sampleBytes w.samples } =
        .ok { p with samples := some w.samples } := by
    intro p offset wide
    rw [readChunk, if_neg (by decide), if_neg (by decide), if_pos rfl, readData, wide,
      samples_sampleBytes]
  rw [chunks]
  cases w.loopStart with
  | none => exact .cons format (.cons (fun offset => data _ offset rfl) (.nil _))
  | some start =>
    have sampler : ∀ (p : Progress) (offset : Nat),
        readChunk p samplerName { offset, bytes := samplerBody w start } =
          .ok { p with loopStart := some start } := by
      intro p offset
      rw [readChunk, if_neg (by decide), if_pos rfl, readSampler_samplerBody]
    exact .cons format (.cons (sampler _) (.cons (fun offset => data _ offset rfl) (.nil _)))

/-! ### Whole files -/

/-- The header of a file is followed by its chunks. -/
theorem readHeader_fileOf {list : List Chunk}
    (fits : (fileOf list).length < 8 + UInt32.size) :
    readHeader { offset := 0, bytes := fileOf list } =
      .ok { offset := 12, bytes := list.flatMap Chunk.bytes } := by
  have size : (UInt32.ofNat (content list).length).toNat = (content list).length := by
    rw [length_fileOf] at fits
    rw [length_content]
    exact UInt32.toNat_ofNat_of_lt (by omega)
  have shape : fileOf list =
      riffName ++ (longBytes (UInt32.ofNat (content list).length) ++ content list) := by
    rw [fileOf, chunk, writeLong, List.append_assoc]
  have riff : ({ offset := 0, bytes := fileOf list } : Cursor).expect riffName = .ok {
      offset := 4
      bytes := longBytes (UInt32.ofNat (content list).length) ++ content list } := by
    rw [shape, expect_append]
    rfl
  rw [readHeader, riff]
  simp only [bind, Except.bind, long_append, size, Nat.lt_irrefl, if_false, List.take_length]
  rw [content, expect_append]
  rfl

/-- A file is read as the sound whose chunks are its known ones. -/
theorem ofFile_fileOf {w : Wave} {list : List Chunk}
    (known : list.filter Chunk.isKnown = w.chunks)
    (fits : (fileOf list).length < 8 + UInt32.size) : Wave.ofFile (fileOf list) = .ok w := by
  have small : (list.flatMap Chunk.bytes).length < UInt32.size := by
    rw [length_fileOf] at fits
    omega
  obtain ⟨stop, chunks⟩ := readChunks_of_tells (Tells.of_filter (known ▸ tells_chunks w)) small 12
  have read : Wave.read (fileOf list) = .ok w := by
    rw [Wave.read, readHeader_fileOf fits]
    simp only [bind, Except.bind, chunks]
  rw [Wave.ofFile, read]
  rfl

/-- A sound whose stated size fits in a double word is read back from its file, which states its
size right; so it is from a file with any chunks of unknown names before, between and behind the
ones that are written. The data rate is passed over in reading, so that no bound on the rate is
needed. -/
theorem ofFile_write {w : Wave} (fits : w.statedSize < UInt32.size) :
    (∃ size : UInt32, (w.write.drop 4).take 4 = longBytes size ∧ size.toNat + 8 = w.write.length) ∧
      Wave.ofFile w.write = .ok w ∧
      ∀ list : List Chunk, list.filter Chunk.isKnown = w.chunks →
        (fileOf list).length < 8 + UInt32.size → Wave.ofFile (fileOf list) = .ok w := by
  have written : (fileOf w.chunks).length < 8 + UInt32.size := by
    rw [← write_eq_fileOf, length_write]
    omega
  have stated : (UInt32.ofNat w.statedSize).toNat = w.statedSize := UInt32.toNat_ofNat_of_lt fits
  have size : (UInt32.ofNat w.statedSize).toNat + 8 = w.write.length := by
    rw [length_write, stated, Nat.add_comm]
  refine ⟨⟨_, stated_write w, size⟩, ?_, fun list known fits => ofFile_fileOf known fits⟩
  rw [write_eq_fileOf]
  exact ofFile_fileOf (filter_isKnown_chunks w) written

/-- A looped sound, and its chunks among unknown ones of even and odd sizes. -/
theorem ofFile_write_among_lists :
    let w : Wave := { rate := 32000, samples := [0, 1000, -1000, 32767, -32768],
                      loopStart := some 2 }
    let odd : Chunk := { name := [0x4C, 0x49, 0x53, 0x54], body := [1, 2, 3] }
    let even : Chunk := { name := [0x63, 0x75, 0x65, 0x20], body := [4, 5], padding := 6 }
    let list := [odd, formatChunk 32000, even, odd, samplerChunk w 2, dataChunk w.samples, odd]
    Wave.ofFile w.write = .ok w ∧ Wave.ofFile (fileOf list) = .ok w := by
  intro w odd even list
  have fits : w.statedSize < UInt32.size := by decide
  obtain ⟨_, written, among⟩ := ofFile_write fits
  have small : (fileOf list).length < 8 + UInt32.size := by
    simp only [list, length_fileOf, List.flatMap_cons, List.flatMap_nil, List.length_append,
      length_bytes_formatChunk, length_bytes_samplerChunk, length_bytes_dataChunk]
    decide
  exact ⟨written, among list (by decide) small⟩

end SnesMusic.Wave
