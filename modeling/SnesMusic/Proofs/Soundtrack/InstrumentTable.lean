import SnesMusic.Proofs.Soundtrack.DirtyBanks
import SnesMusic.Proofs.Soundtrack.FailedSave

/-!
# The instrument table

A save writes the whole instrument table from what was read of it. Main statement: after a change to
one instrument, what changes in the image is that instrument's entry and, in the entries of the
others, the bit that turns the envelope on, which is set (`save_instrument`).
-/
namespace SnesMusic

open LittleEndian

/-! ### Entries written again -/

theorem Instrument.attackDecay_withEnvelope (i : Instrument) (attackDecay sustain : UInt8) :
    (i.withEnvelope attackDecay sustain).attackDecay = attackDecay ||| 0x80 := by
  have all : ∀ n : Fin 256, UInt8.ofNat n % 16 % 16 + UInt8.ofNat n / 16 % 8 % 8 * 16 + 128 =
      UInt8.ofNat n ||| 0x80 := by decide +kernel
  have here := all ⟨attackDecay.toNat, attackDecay.toNat_lt⟩
  rw [UInt8.ofNat_toNat] at here
  exact here

theorem or_eq_self_of_le {byte : UInt8} (on : 0x80 ≤ byte) : byte ||| 0x80 = byte := by
  have all : ∀ n : Fin 256, 0x80 ≤ UInt8.ofNat n → UInt8.ofNat n ||| 0x80 = UInt8.ofNat n := by
    decide +kernel
  have here := all ⟨byte.toNat, byte.toNat_lt⟩
  rw [UInt8.ofNat_toNat] at here
  exact here on

theorem Instrument.sustain_withEnvelope (i : Instrument) (attackDecay sustain : UInt8) :
    (i.withEnvelope attackDecay sustain).sustain = sustain := by
  have all : ∀ n : Fin 256, UInt8.ofNat n % 32 % 32 + UInt8.ofNat n / 32 % 8 * 32 =
      UInt8.ofNat n := by decide +kernel
  have here := all ⟨sustain.toNat, sustain.toNat_lt⟩
  rw [UInt8.ofNat_toNat] at here
  exact here

theorem Instrument.length_encode (i : Instrument) : i.encode.length = instrumentSize := rfl

/-- An entry's byte after reading and writing: the first envelope register, the second byte of an
entry, has its highest bit set. -/
def rewritten (i : Nat) (byte : UInt8) : UInt8 :=
  if i % instrumentSize = 1 then byte ||| 0x80 else byte

/-- A table that is read and written again differs by the bits that turn envelopes on. -/
theorem encode_readInstruments {names : List String} {bytes : List UInt8}
    (whole : bytes.length = names.length * instrumentSize) :
    (readInstruments names bytes).flatMap Instrument.encode = bytes.mapIdx rewritten := by
  induction names generalizing bytes with
  | nil =>
    rw [List.length_nil, Nat.zero_mul] at whole
    rw [List.eq_nil_of_length_eq_zero whole]
    rfl
  | cons name names ih =>
    rw [List.length_cons, Nat.succ_mul] at whole
    match bytes, whole with
    | sample :: attackDecay :: sustain :: gain :: high :: low :: rest, (whole : _ + 6 = _ + 6) =>
      have entry : (({ name, sample, gain, pitchMultiplier := word low high } :
          Instrument).withEnvelope attackDecay sustain).encode =
            [sample, attackDecay ||| 0x80, sustain, gain, high, low] := by
        rw [Instrument.encode, Instrument.attackDecay_withEnvelope,
          Instrument.sustain_withEnvelope]
        simp only [Instrument.withEnvelope, highByte_word, lowByte_word]
      have later : (fun i => rewritten (i + 1 + 1 + 1 + 1 + 1 + 1)) = rewritten := by
        funext i byte
        rw [rewritten, rewritten, show i + 1 + 1 + 1 + 1 + 1 + 1 = i + instrumentSize from rfl,
          Nat.add_mod_right]
      have behind : rest.length = names.length * instrumentSize := Nat.add_right_cancel whole
      rw [readInstruments, List.flatMap_cons, entry, ih behind]
      simp only [List.mapIdx_cons, later]
      rfl

theorem length_flatMap_encode (instruments : List Instrument) :
    (instruments.flatMap Instrument.encode).length = instruments.length * instrumentSize := by
  induction instruments with
  | nil => rfl
  | cons first rest ih =>
    rw [List.flatMap_cons, List.length_append, ih, Instrument.length_encode, List.length_cons,
      Nat.succ_mul, Nat.add_comm]

theorem length_readInstruments {names : List String} {bytes : List UInt8}
    (whole : bytes.length = names.length * instrumentSize) :
    (readInstruments names bytes).length = names.length := by
  have written := congrArg List.length (encode_readInstruments whole)
  rw [length_flatMap_encode, List.length_mapIdx, whole] at written
  exact Nat.eq_of_mul_eq_mul_right (by decide) written

/-- Changing an instrument changes the bytes of its entry only. -/
theorem getElem?_encode_set (instruments : List Instrument) (k : Nat) (instrument : Instrument)
    {i : Nat} (outside : i < k * instrumentSize ∨ k * instrumentSize + instrumentSize ≤ i) :
    ((instruments.set k instrument).flatMap Instrument.encode)[i]? =
      (instruments.flatMap Instrument.encode)[i]? := by
  induction instruments generalizing k i with
  | nil => rfl
  | cons first rest ih =>
    have behind : ∀ other : Instrument, instrumentSize ≤ i →
        (other.encode ++ rest.flatMap Instrument.encode)[i]? =
          (rest.flatMap Instrument.encode)[i - instrumentSize]? :=
      fun other late => List.getElem?_append_right late
    cases k with
    | zero =>
      have late : instrumentSize ≤ i := by omega
      rw [List.set_cons_zero, List.flatMap_cons, List.flatMap_cons, behind _ late, behind _ late]
    | succ k =>
      rw [Nat.succ_mul] at outside
      rw [List.set_cons_succ, List.flatMap_cons, List.flatMap_cons]
      by_cases here : i < first.encode.length
      · rw [List.getElem?_append_left here, List.getElem?_append_left here]
      · have late : instrumentSize ≤ i := Nat.not_lt.mp here
        rw [behind _ late, List.getElem?_append_right late]
        exact ih k (by rw [Instrument.length_encode]; omega)

/-! ### Saving instruments -/

/-- Bytes of the instrument table. -/
def instrumentTableSize : Nat := instrumentCount * instrumentSize

namespace Soundtrack

variable {s : Soundtrack} {image : Image}

/-- Instruments are read from the first bytes at the address of their table. -/
theorem loadInstruments_ok {common : Uploads} {instruments : List Instrument}
    (read : loadInstruments common = .ok instruments) :
    ∃ bytes, common.from? instrumentTableAddress = some bytes ∧
      (bytes.take instrumentTableSize).length = instrumentTableSize ∧
      instruments = readInstruments instrumentNames (bytes.take instrumentTableSize) := by
  unfold loadInstruments Uploads.require at read
  cases found : common.from? instrumentTableAddress with
  | none => simp [found, bind, Except.bind] at read
  | some bytes =>
    simp only [found, bind, Except.bind, pure, Except.pure] at read
    split at read
    · simp [throw, throwThe, MonadExceptOf.throw] at read
    · rename_i enough
      have most : (bytes.take instrumentTableSize).length ≤ instrumentTableSize :=
        List.length_take_le ..
      refine ⟨bytes, rfl, Nat.le_antisymm most (Nat.not_lt.mp enough), ?_⟩
      exact (Except.ok.inj read).symm

/-- A load that succeeds has read the instruments from a table in the image. -/
theorem instruments_load (loaded : (s.load image).outcome = .ok ()) :
    ∃ offset table, (Uploads.ofImage image .common).offset? instrumentTableAddress = some offset ∧
      table.length = instrumentTableSize ∧ image.Has offset table ∧
      (s.load image).soundtrack.instruments = readInstruments instrumentNames table := by
  have read : loadInstruments (Uploads.ofImage image .common) =
      .ok (s.load image).soundtrack.instruments := by
    obtain ⟨there, -⟩ := load_ok loaded
    unfold load at loaded ⊢
    rw [if_neg (by simp [there])] at loaded ⊢
    cases table : loadInstruments (Uploads.ofImage image .common) with
    | error e => simp [table] at loaded
    | ok instruments =>
      simp only [table] at loaded ⊢
      cases samples : loadSamples (Uploads.ofImage image .common) with
      | error e => simp [samples] at loaded
      | ok entries => rfl
  obtain ⟨bytes, found, whole, instruments⟩ := loadInstruments_ok read
  obtain ⟨offset, place, stands⟩ := Uploads.has_of_from? found
  rw [← List.take_append_drop instrumentTableSize bytes] at stands
  exact ⟨offset, _, place, whole, stands.left, instruments⟩

/-- Where nothing but instruments is modified, saving writes their table. -/
theorem save_instruments (ready : s.loaded = true) (there : image.isLoaded = true)
    (clean : s.dirtyBanks = []) (unmodified : ∀ entry ∈ s.entries, entry.modified = false)
    (modified : s.instrumentsModified = true) {offset : Nat}
    (placed : (Uploads.ofImage image .common).offset? instrumentTableAddress = some offset)
    (whole : s.instruments.length = instrumentCount)
    (inside : offset + instrumentTableSize ≤ image.size) :
    (s.save image).outcome = .ok () ∧ (s.save image).image =
      (image.tryWrite offset (s.instruments.flatMap Instrument.encode)).image ∧
      (image.tryWrite offset (s.instruments.flatMap Instrument.encode)).outcome = .ok () := by
  have checked : s.check = .ok () := by
    refine check_of_fits unmodified fun bank dirty => ?_
    rw [clean] at dirty
    exact absurd dirty List.not_mem_nil
  have samples : ∀ entry ∈ s.entries.zipIdx, entry.1.modified = false :=
    fun entry member => unmodified _ (List.fst_mem_of_mem_zipIdx member)
  have length : (s.instruments.flatMap Instrument.encode).length = instrumentTableSize := by
    rw [length_flatMap_encode, whole, instrumentTableSize]
  have filled : image.size ≠ 0 := by simpa [Image.isLoaded] using there
  have written := Image.outcome_tryWrite (length ▸ inside) filled
  have instruments : ({ soundtrack := s, image } : Saving).saveInstruments =
      ({ soundtrack := s, image } : Saving).write offset
        (s.instruments.flatMap Instrument.encode) := by
    unfold Saving.saveInstruments
    simp only [placed, whole, Nat.le_refl, if_true]
    rw [← whole, List.take_length]
  have all : s.writeAll image = ({ soundtrack := s, image } : Saving).write offset
      (s.instruments.flatMap Instrument.encode) := by
    rw [writeAll, saveBanks, clean]
    simp only [Saving.each_saveSample samples, modified, if_true]
    show ((({ soundtrack := s, image } : Saving).saveInstruments).andThen fun saving => saving) = _
    rw [instruments]
    unfold Saving.andThen
    split <;> rfl
  obtain ⟨same, outcome⟩ := save_of_check ready there checked
  rw [same, outcome, all]
  exact ⟨written, rfl, written⟩

theorem updateInstrument_of_lt {k : Nat} (below : k < s.instruments.length)
    (change : Instrument → Instrument) :
    s.updateInstrument k change = .ok { s with
      instruments := s.instruments.set k (change s.instruments[k])
      instrumentsModified := true } := by
  simp only [updateInstrument, instrument?, List.getElem?_eq_getElem below, bind, Except.bind, pure,
    Except.pure]

/-- Changing an instrument leaves songs and samples as they are. -/
theorem updateInstrument_kept {t : Soundtrack} {k : Nat} {change : Instrument → Instrument}
    (edit : s.updateInstrument k change = .ok t) :
    t.dirtyBanks = s.dirtyBanks ∧ t.entries = s.entries := by
  unfold updateInstrument at edit
  cases found : s.instrument? k with
  | error e => simp [found, bind, Except.bind] at edit
  | ok instrument =>
    simp only [found, bind, Except.bind, pure, Except.pure, Except.ok.injEq] at edit
    subst edit
    exact ⟨rfl, rfl⟩

/-- What a table that was read holds at each place after one of its entries was changed. -/
theorem getElem?_encode_changed {table : List UInt8} (whole : table.length = instrumentTableSize)
    (k : Nat) (instrument : Instrument) {m : Nat}
    (outside : m < k * instrumentSize ∨ k * instrumentSize + instrumentSize ≤ m) :
    (((readInstruments instrumentNames table).set k instrument).flatMap Instrument.encode)[m]? =
      table[m]?.map (rewritten m) := by
  rw [getElem?_encode_set _ _ _ outside, encode_readInstruments whole, List.getElem?_mapIdx]

/-- The image after one of the instruments that were read was changed. -/
theorem save_changed {t : Soundtrack} (ready : t.loaded = true) (there : image.isLoaded = true)
    (clean : t.dirtyBanks = []) (unmodified : ∀ entry ∈ t.entries, entry.modified = false)
    {offset : Nat} {table : List UInt8}
    (place : (Uploads.ofImage image .common).offset? instrumentTableAddress = some offset)
    (whole : table.length = instrumentTableSize) (stands : image.Has offset table)
    (kept : t.instruments = readInstruments instrumentNames table) (k : Nat)
    (instrument : Instrument) :
    let edited : Soundtrack :=
      { t with instruments := t.instruments.set k instrument, instrumentsModified := true }
    (edited.save image).outcome = .ok () ∧ (edited.save image).image.size = image.size ∧
      ∀ i, (i < offset + k * instrumentSize ∨ offset + k * instrumentSize + instrumentSize ≤ i) →
        (edited.save image).image.data[i]? =
          if offset ≤ i ∧ i < offset + instrumentTableSize ∧ (i - offset) % instrumentSize = 1 then
            image.data[i]?.map (· ||| 0x80)
          else image.data[i]? := by
  intro edited
  have filled : table ≠ [] := by
    rintro rfl
    exact absurd whole (by decide)
  have inside : offset + instrumentTableSize ≤ image.size := whole ▸ stands.size_ge filled
  have count : edited.instruments.length = instrumentCount := by
    rw [List.length_set, kept, length_readInstruments whole]
    rfl
  obtain ⟨saved, same, written⟩ :=
    save_instruments (s := edited) ready there clean unmodified rfl place count inside
  have frame := Image.frame_tryWrite image offset (edited.instruments.flatMap Instrument.encode)
  have has := Image.has_of_tryWrite written
  have length : (edited.instruments.flatMap Instrument.encode).length = instrumentTableSize := by
    rw [length_flatMap_encode, count, instrumentTableSize]
  rw [length] at frame
  refine ⟨saved, same ▸ frame.size, fun i outside => ?_⟩
  rw [same]
  by_cases within : offset ≤ i ∧ i < offset + instrumentTableSize
  · obtain ⟨low, high⟩ := within
    have old := stands.getElem? low (by omega)
    rw [has.getElem? low (by omega), old]
    simp only [edited, kept]
    rw [getElem?_encode_changed whole _ _ (by omega)]
    by_cases register : (i - offset) % instrumentSize = 1
    · rw [if_pos ⟨low, high, register⟩]
      exact congrArg (fun f => Option.map f _) (funext fun byte => if_pos register)
    · have plain : rewritten (i - offset) = id := funext fun byte => if_neg register
      rw [if_neg fun all => register all.2.2, plain, Option.map_id]
      rfl
  · rw [if_neg fun all => within ⟨all.1, all.2.1⟩]
    exact frame.data i within

/-- Changing one instrument and saving writes the six bytes of its entry, and beside them only the
highest bit of the first envelope register in every other entry: it turns the envelope on and is
set. An entry that has the bit set already keeps its six bytes. -/
theorem save_instrument {t : Soundtrack} (loaded : (s.load image).outcome = .ok ())
    (ready : t.loaded = true) (kept : t.instruments = (s.load image).soundtrack.instruments)
    (clean : t.dirtyBanks = []) (unmodified : ∀ entry ∈ t.entries, entry.modified = false)
    {k : Nat} (below : k < instrumentCount) (change : Instrument → Instrument) :
    ∃ edited offset, t.updateInstrument k change = .ok edited ∧
      (Uploads.ofImage image .common).offset? instrumentTableAddress = some offset ∧
      offset + instrumentTableSize ≤ image.size ∧ (edited.save image).outcome = .ok () ∧
      (edited.save image).image.size = image.size ∧
      (∀ i, (i < offset + k * instrumentSize ∨ offset + k * instrumentSize + instrumentSize ≤ i) →
        (edited.save image).image.data[i]? =
          if offset ≤ i ∧ i < offset + instrumentTableSize ∧ (i - offset) % instrumentSize = 1 then
            image.data[i]?.map (· ||| 0x80)
          else image.data[i]?) ∧
      ∀ j < instrumentCount, j ≠ k → ∀ sample attackDecay sustain gain high low,
        0x80 ≤ attackDecay → image.Has (offset + j * instrumentSize)
          [sample, attackDecay, sustain, gain, high, low] →
        (edited.save image).image.Has (offset + j * instrumentSize)
          [sample, attackDecay, sustain, gain, high, low] := by
  obtain ⟨offset, table, place, whole, stands, instruments⟩ := instruments_load loaded
  have there := (load_ok loaded).1
  have filled : table ≠ [] := by
    rintro rfl
    exact absurd whole (by decide)
  have count : t.instruments.length = instrumentCount := by
    rw [kept, instruments, length_readInstruments whole]
    rfl
  obtain ⟨saved, size, bytes⟩ := save_changed ready there clean unmodified place whole stands
    (kept.trans instruments) k (change t.instruments[k])
  refine ⟨_, offset, updateInstrument_of_lt (count ▸ below) change, place,
    whole ▸ stands.size_ge filled, saved, size, bytes, ?_⟩
  intro j member other sample attackDecay sustain gain high low on entry r here
  have six : instrumentSize = 6 := rfl
  have short : r < instrumentSize := here
  have old := entry r here
  have apart : offset + j * instrumentSize + r < offset + k * instrumentSize ∨
      offset + k * instrumentSize + instrumentSize ≤ offset + j * instrumentSize + r := by
    rw [six] at short ⊢
    omega
  have place : (offset + j * instrumentSize + r - offset) % instrumentSize = r := by
    rw [six] at short ⊢
    omega
  rw [bytes _ apart, place, old]
  split
  · rename_i register
    rw [register.2.2]
    exact congrArg some (or_eq_self_of_le on)
  · rfl

end Soundtrack

/-! ### An example -/

theorem clean_creditsImage : (({} : Soundtrack).load creditsImage).soundtrack.loaded = true ∧
    (({} : Soundtrack).load creditsImage).soundtrack.dirtyBanks = [] ∧
    ∀ entry ∈ (({} : Soundtrack).load creditsImage).soundtrack.entries,
      entry.modified = false := by
  have unmodified := (Soundtrack.songsOnly_load loads_creditsImage).samples
  obtain ⟨-, instruments, entries, -, same⟩ := Soundtrack.load_ok loads_creditsImage
  exact ⟨by rw [same], (Settled.load loads_creditsImage).dirtyBanks_eq_nil, unmodified⟩

/-- The instrument table of the image is blank, so that no envelope is on. -/
theorem instruments_creditsImage :
    (Uploads.ofImage creditsImage .common).offset? instrumentTableAddress = some 0xC8104 ∧
      ∀ m < instrumentTableSize, creditsImage.data[0xC8104 + m]? = some 0 := by
  have place : (Uploads.ofImage creditsImage .common).offset? instrumentTableAddress =
      some 0xC8104 := by
    rw [uploads_creditsImage]
    decide +kernel
  have found : (Uploads.ofImage creditsImage .common).from? instrumentTableAddress =
      some (List.replicate instrumentTableSize 0 ++ [0x18, 0xA4, 0x00]) := by
    rw [uploads_creditsImage]
    decide +kernel
  obtain ⟨offset, there, stands⟩ := Uploads.has_of_from? found
  rw [place, Option.some.injEq] at there
  refine ⟨place, fun m inside => ?_⟩
  rw [there, stands.left m (by rwa [List.length_replicate]), List.getElem?_replicate,
    if_pos inside]

theorem louder_noise_saved :
    ∃ edited, (({} : Soundtrack).load creditsImage).soundtrack.updateInstrument 0
        (fun i => { i with gain := 1 }) = .ok edited ∧
      (edited.save creditsImage).outcome = .ok () ∧
      (edited.save creditsImage).image.data[0xC810A]? = some 0 ∧
      (edited.save creditsImage).image.data[0xC810B]? = some 0x80 := by
  obtain ⟨loaded, clean, unmodified⟩ := clean_creditsImage
  obtain ⟨place, blank⟩ := instruments_creditsImage
  obtain ⟨edited, offset, edit, there, -, saved, -, bytes, -⟩ := Soundtrack.save_instrument
    loads_creditsImage loaded rfl clean unmodified (k := 0) (by decide)
    (fun i => { i with gain := 1 })
  obtain rfl : 0xC8104 = offset := Option.some.inj (place.symm.trans there)
  refine ⟨edited, edit, saved, ?_, ?_⟩
  · rw [bytes _ (by decide), if_neg (by decide)]
    exact blank 6 (by decide)
  · rw [bytes _ (by decide), if_pos (by decide), show creditsImage.data[0xC810B]? = some 0 from
      blank 7 (by decide)]
    rfl

/-- The entries of other instruments do change where their envelopes were off. -/
theorem envelopes_turned_on :
    ¬∀ (s : Soundtrack) (image : Image) (k : Nat) (change : Instrument → Instrument)
      (edited : Soundtrack) (offset : Nat),
      (s.load image).outcome = .ok () → k < instrumentCount →
      (s.load image).soundtrack.updateInstrument k change = .ok edited →
      edited.dirtyBanks = [] → (∀ entry ∈ edited.entries, entry.modified = false) →
      (edited.save image).outcome = .ok () →
      (Uploads.ofImage image .common).offset? instrumentTableAddress = some offset →
      ∀ i, (i < offset + k * instrumentSize ∨ offset + k * instrumentSize + instrumentSize ≤ i) →
        (edited.save image).image.data[i]? = image.data[i]? := by
  intro all
  obtain ⟨loaded, clean, unmodified⟩ := clean_creditsImage
  obtain ⟨place, blank⟩ := instruments_creditsImage
  obtain ⟨offset, table, there, whole, stands, instruments⟩ :=
    Soundtrack.instruments_load loads_creditsImage
  obtain rfl : 0xC8104 = offset := Option.some.inj (place.symm.trans there)
  have many : 0 < (({} : Soundtrack).load creditsImage).soundtrack.instruments.length := by
    rw [instruments, length_readInstruments whole]
    decide
  obtain ⟨saved, -, bytes⟩ := Soundtrack.save_changed loaded isLoaded_creditsImage clean unmodified
    place whole stands instruments 0
    (id (({} : Soundtrack).load creditsImage).soundtrack.instruments[0])
  have changed := bytes 0xC810B (by decide)
  have edit := Soundtrack.updateInstrument_of_lt many id
  obtain ⟨banks, entries⟩ := Soundtrack.updateInstrument_kept edit
  have same := all {} creditsImage 0 id _ 0xC8104 loads_creditsImage (by decide) edit
    (banks.trans clean) (fun entry member => unmodified entry (entries ▸ member)) saved place
    0xC810B (by decide)
  rw [show creditsImage.data[0xC810B]? = some 0 from blank 7 (by decide)] at same changed
  rw [if_pos (by decide)] at changed
  exact absurd (same.symm.trans changed) (by decide)

end SnesMusic
