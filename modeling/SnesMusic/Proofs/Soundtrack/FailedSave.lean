import SnesMusic.Proofs.Bytecode.Encodable
import SnesMusic.Proofs.Soundtrack.Reload

/-!
# Failed saves

When saving fails, and what it leaves behind. Everything is checked before anything is written, and
songs that pass can be placed unless one loops to a segment it lacks. What fails later is a write
that the image has no place for; it changes nothing itself, but nothing is taken back. Main
statements: saving songs succeeds where their loops lead to segments and the image has room for them
(`save_of_room`), and an image that a failed save has changed lacked a place that was to be written
(`failed_save_kept`).
-/
namespace SnesMusic

open LittleEndian

/-! ### Placing songs that have been checked -/

/-- Songs with a size that fits the memory can be placed, unless one loops to a segment it lacks.
The induction is on the songs; each takes bytes, so the next begins below the end of memory. -/
theorem Placement.outcome_ofSongs {bank : Bank} {address total : Nat} {songs : List Song}
    (space : songsSpace (songsOf bank songs) = .ok total) (fits : address + total ≤ memorySize) :
    (ofSongs bank address songs).outcome = .ok () ∨
      ∃ song ∈ songsOf bank songs, ∃ segment, song.loopPoint = some segment ∧
        song.segments.length ≤ segment ∧
        (ofSongs bank address songs).outcome = .error (.invalidIndex .loopSegment segment) := by
  induction songs generalizing address total with
  | nil => exact Or.inl rfl
  | cons song rest ih =>
    by_cases here : song.bank = bank
    · rw [songsOf_cons_of_eq here] at space ⊢
      obtain ⟨size, others, own, later, sum⟩ := songsSpace_cons_ok space
      have some_ := Song.two_le_requiredSpace own
      rw [ofSongs_here here, if_neg (by omega)]
      rcases Song.encode_of_requiredSpace own (UInt16.ofNat address) with
        ⟨encoding, encoded, length⟩ | ⟨segment, point, beyond, refused⟩
      · simp only [encoded]
        rw [if_neg (by omega)]
        rcases ih later (show address + encoding.data.length + others ≤ memorySize by omega) with
          ok | ⟨other, listed, fault⟩
        · exact Or.inl ok
        · exact Or.inr ⟨other, List.mem_cons_of_mem _ listed, fault⟩
      · simp only [refused]
        exact Or.inr ⟨song, List.mem_cons_self .., segment, point, beyond, rfl⟩
    · rw [songsOf_cons_of_ne here] at space ⊢
      rw [ofSongs_elsewhere here]
      exact ih space fits

namespace Soundtrack

/-- Why saving a bank fails that has been checked: one of its songs loops to a segment it lacks, or
the image ends before the bank's block does. -/
inductive BankFault (s : Soundtrack) (image : Image) (bank : Bank) : MusicError → Prop where
  | loop {song : Song} {segment : Nat} (listed : song ∈ s.songsIn bank)
      (point : song.loopPoint = some segment) (beyond : song.segments.length ≤ segment) :
      BankFault s image bank (.invalidIndex .loopSegment segment)
  | room {size : Nat} (sized : s.payloadSize bank = .ok size)
      (short : image.size < image.locate bank.offset + (size + 2 * Block.headerSize)) :
      BankFault s image bank
        (.outOfRange (image.locate bank.offset) (size + 2 * Block.headerSize) image.size)

/-- The reasons depend on the bank's songs and the size of the image alone. -/
theorem BankFault.congr {s t : Soundtrack} {image other : Image} {bank : Bank} {e : MusicError}
    (fault : BankFault s image bank e) (songs : t.songsIn bank = s.songsIn bank)
    (size : other.size = image.size) : BankFault t other bank e := by
  have place : other.locate bank.offset = image.locate bank.offset := by
    rw [Image.locate, Image.locate, Image.headerOffset, Image.headerOffset, size]
  cases fault with
  | loop listed point beyond => exact .loop (songs ▸ listed) point beyond
  | room sized short =>
    rw [← size, ← place] at short ⊢
    refine .room ?_ short
    rw [payloadSize, songs]
    exact sized

end Soundtrack

namespace Saving

open Soundtrack (BankFault)

variable {bank : Bank} {s : Saving} {e : MusicError}

/-- Songs that fit the memory can be placed, unless one loops to a segment it lacks. -/
theorem outcome_placement_of_room {size : Nat} (sized : s.soundtrack.payloadSize bank = .ok size)
    (room : size ≤ bank.room) :
    (placement bank s).outcome = .ok () ∨
      ∃ song ∈ s.soundtrack.songsIn bank, ∃ segment, song.loopPoint = some segment ∧
        song.segments.length ≤ segment ∧
        (placement bank s).outcome = .error (.invalidIndex .loopSegment segment) := by
  obtain ⟨total, space, sum⟩ := payloadSize_ok sized
  have below := bank.tableAddress.toNat_lt
  refine Placement.outcome_ofSongs space ?_
  unfold Bank.room memorySize at room
  unfold firstAddress memorySize
  omega

theorem outcome_placement (checked : s.soundtrack.checkBank bank = .ok ()) :
    (placement bank s).outcome = .ok () ∨
      ∃ song ∈ s.soundtrack.songsIn bank, ∃ segment, song.loopPoint = some segment ∧
        song.segments.length ≤ segment ∧
        (placement bank s).outcome = .error (.invalidIndex .loopSegment segment) := by
  obtain ⟨size, sized, -, room⟩ := checkBank_ok checked
  exact outcome_placement_of_room sized room

/-- A block that the image does not admit is not written. -/
theorem saveSongs_of_fault (placed : (placement bank s).outcome = .ok ())
    (fault : s.image.fault? (s.image.locate bank.offset)
      ((blockPayload bank s).length + 2 * Block.headerSize) = some e) :
    (saveSongs bank s).outcome = .error e ∧ (saveSongs bank s).image = s.image := by
  have length : (Block.encode bank.tableAddress (blockPayload bank s) ++ [0, 0, 0, 0]).length =
      (blockPayload bank s).length + 2 * Block.headerSize := by
    rw [List.length_append, Block.length_encode, Block.headerSize]
    simp only [List.length_cons, List.length_nil]
    omega
  rw [saveSongs_eq_of_placed placed]
  simp only [addressed, write, Image.tryWrite, Image.writeBytes, length, fault, andThen]
  exact ⟨trivial, trivial⟩

/-- A block that the image has no room for is not written. -/
theorem saveSongs_of_short (placed : (placement bank s).outcome = .ok ())
    (filled : s.image.isLoaded = true)
    (short : s.image.size <
      s.image.locate bank.offset + ((blockPayload bank s).length + 2 * Block.headerSize)) :
    (saveSongs bank s).outcome = .error (.outOfRange (s.image.locate bank.offset)
        ((blockPayload bank s).length + 2 * Block.headerSize) s.image.size) ∧
      (saveSongs bank s).image = s.image := by
  have nonzero : s.image.size ≠ 0 := by simpa [Image.isLoaded] using filled
  apply saveSongs_of_fault placed
  rw [Image.fault?, if_neg nonzero, if_neg (Nat.not_le_of_lt short)]

/-- Songs that cannot be placed are not written. -/
theorem saveSongs_of_refused (refused : (placement bank s).outcome = .error e) :
    (saveSongs bank s).outcome = .error e ∧ (saveSongs bank s).image = s.image := by
  rw [saveSongs_eq_of_refused refused]
  exact ⟨rfl, rfl⟩

/-- Saving a bank that has been checked changes nothing when it fails. -/
theorem saveSongs_failed (checked : s.soundtrack.checkBank bank = .ok ())
    (filled : s.image.isLoaded = true) (failed : (saveSongs bank s).outcome = .error e) :
    (saveSongs bank s).image = s.image ∧ BankFault s.soundtrack s.image bank e := by
  rcases outcome_placement checked with placed | ⟨song, listed, segment, point, beyond, refused⟩
  · have sized := payloadSize_eq placed
    by_cases room : s.image.locate bank.offset +
        ((blockPayload bank s).length + 2 * Block.headerSize) ≤ s.image.size
    · rw [outcome_saveSongs placed room] at failed
      simp at failed
    · obtain ⟨outcome, image⟩ := saveSongs_of_short placed filled (Nat.lt_of_not_le room)
      rw [outcome, Except.error.injEq] at failed
      subst failed
      exact ⟨image, .room sized (Nat.lt_of_not_le room)⟩
  · obtain ⟨outcome, image⟩ := saveSongs_of_refused refused
    rw [outcome, Except.error.injEq] at failed
    subst failed
    exact ⟨image, .loop listed point beyond⟩

/-! ### The size of the image -/

theorem size_write (s : Saving) (offset : Nat) (bytes : List UInt8) :
    (s.write offset bytes).image.size = s.image.size :=
  (Image.frame_tryWrite _ _ _).size

theorem size_andThen {step : Saving → Saving} (kept : (step s).image.size = s.image.size) :
    (s.andThen step).image.size = s.image.size := by
  unfold andThen
  cases s.outcome with
  | error e => rfl
  | ok u => exact kept

theorem size_saveSongs (bank : Bank) (s : Saving) :
    (saveSongs bank s).image.size = s.image.size := by
  have pointed : ∀ t : Saving, (t.writePointer bank).image.size = t.image.size := by
    intro t
    unfold writePointer
    cases bank.pointerBytes with
    | none => rfl
    | some place => exact (Image.frame_writePointer _ _ _).size
  unfold saveSongs
  simp only
  split
  · rfl
  · rw [size_andThen rfl, size_andThen (pointed _), size_write]

theorem size_saveInstruments (s : Saving) : s.saveInstruments.image.size = s.image.size := by
  unfold saveInstruments
  simp only
  split
  · rfl
  · rw [size_write]
    split <;> rfl

theorem size_saveSample (entry : SampleEntry × Nat) (s : Saving) :
    (saveSample entry s).image.size = s.image.size := by
  unfold saveSample
  split
  · rfl
  · split
    · rfl
    · rw [size_andThen (size_write _ _ _), size_write]

theorem size_each {α : Type} {step : α → Saving → Saving}
    (kept : ∀ x s, (step x s).image.size = s.image.size) (xs : List α) (s : Saving) :
    (s.each xs step).image.size = s.image.size := by
  induction xs generalizing s with
  | nil => rfl
  | cons x rest ih => rw [each_cons, ih, size_andThen (kept x s)]

/-! ### Where saving banks stops -/

/-- A run that fails does so at one of its steps, after those before it have succeeded. -/
theorem each_failed {α : Type} {xs : List α} {step : α → Saving → Saving}
    (begun : s.outcome = .ok ()) (failed : (s.each xs step).outcome = .error e) :
    ∃ done x later, xs = done ++ x :: later ∧ (s.each done step).outcome = .ok () ∧
      (step x (s.each done step)).outcome = .error e ∧
      s.each xs step = step x (s.each done step) := by
  induction xs generalizing s with
  | nil =>
    rw [each_nil, begun] at failed
    simp at failed
  | cons x rest ih =>
    have taken : s.andThen (step x) = step x s := by rw [andThen, begun]
    rw [each_cons, taken] at failed
    cases outcome : (step x s).outcome with
    | error other =>
      rw [each_of_error outcome, outcome, Except.error.injEq] at failed
      subst failed
      refine ⟨[], x, rest, rfl, begun, outcome, ?_⟩
      rw [each_cons, taken, each_of_error outcome]
      rfl
    | ok u =>
      obtain ⟨done, y, later, split, before, stopped, same⟩ := ih outcome failed
      have further : s.each (x :: done) step = (step x s).each done step := by
        rw [each_cons, taken]
      refine ⟨x :: done, y, later, by rw [split, List.cons_append], ?_, ?_, ?_⟩
      · rw [further]
        exact before
      · rw [further]
        exact stopped
      · rw [further, each_cons, taken, same]

/-- Saving banks that have been checked stops at the bank that fails, with those before it saved and
nothing else written. -/
theorem each_saveSongs_failed {banks : List Bank} (begun : s.outcome = .ok ())
    (filled : s.image.isLoaded = true) (distinct : banks.Nodup)
    (checked : ∀ bank ∈ banks, s.soundtrack.checkBank bank = .ok ())
    (failed : (s.each banks saveSongs).outcome = .error e) :
    ∃ done bank later, banks = done ++ bank :: later ∧ (s.each done saveSongs).outcome = .ok () ∧
      (s.each banks saveSongs).image = (s.each done saveSongs).image ∧
      BankFault s.soundtrack s.image bank e := by
  obtain ⟨done, bank, later, split, before, stopped, same⟩ := each_failed begun failed
  rw [split] at distinct
  have fresh : bank ∉ done := fun member =>
    (List.nodup_append.mp distinct).2.2 bank member bank (List.mem_cons_self ..) rfl
  have size : (s.each done saveSongs).image.size = s.image.size := size_each size_saveSongs _ _
  have songs : (s.each done saveSongs).soundtrack.songsIn bank = s.soundtrack.songsIn bank :=
    songs_each_saveSongs before fresh
  have kept := kept_each_saveSongs done s
  have check : (s.each done saveSongs).soundtrack.checkBank bank = .ok () := by
    rw [Soundtrack.checkBank, Soundtrack.payloadSize, songs, kept.config,
      ← Soundtrack.payloadSize, ← Soundtrack.checkBank]
    exact checked bank (by rw [split]; simp)
  have there : (s.each done saveSongs).image.isLoaded = true := by
    rw [Image.isLoaded, size]
    exact filled
  obtain ⟨image, fault⟩ := saveSongs_failed check there stopped
  exact ⟨done, bank, later, split, before, same ▸ image, fault.congr songs.symm size.symm⟩

/-! ### Instruments and samples -/

/-- A write fails for want of room. -/
theorem write_failed {offset : Nat} {bytes : List UInt8} (filled : s.image.isLoaded = true)
    (failed : (s.write offset bytes).outcome = .error e) :
    s.image.size < offset + bytes.length ∧
      e = .outOfRange offset bytes.length s.image.size := by
  have nonzero : s.image.size ≠ 0 := by simpa [Image.isLoaded] using filled
  unfold write Image.tryWrite Image.writeBytes Image.fault? at failed
  rw [if_neg nonzero] at failed
  by_cases room : offset + bytes.length ≤ s.image.size
  · simp [room] at failed
  · simp only [if_neg room, Except.error.injEq] at failed
    exact ⟨Nat.lt_of_not_le room, failed.symm⟩

end Saving

namespace Soundtrack

/-- The places that saving writes to, an offset and a length each: the blocks of dirty banks, the
instrument table when instruments are modified, and of modified samples with a slot the bytes and
the address they loop to. -/
inductive Target (s : Soundtrack) (image : Image) : Nat → Nat → Prop where
  | block {bank : Bank} {size : Nat} (dirty : bank ∈ s.dirtyBanks)
      (sized : s.payloadSize bank = .ok size) :
      Target s image (image.locate bank.offset) (size + 2 * Block.headerSize)
  | instruments {offset : Nat} (modified : s.instrumentsModified = true)
      (uploaded : (Uploads.ofImage (s.saveBanks image).image .common).offset?
        instrumentTableAddress = some offset) :
      Target s image offset ((s.instruments.take instrumentCount).flatMap Instrument.encode).length
  | sample {entry : SampleEntry} {slot : Slot} (listed : entry ∈ s.entries)
      (modified : entry.modified = true) (placed : entry.slot = some slot) :
      Target s image slot.offset entry.sample.encoded.length
  | loop {entry : SampleEntry} {slot : Slot} (listed : entry ∈ s.entries)
      (modified : entry.modified = true) (placed : entry.slot = some slot) :
      Target s image (slot.directory + 2) 2

/-- The error says that the image has no place for something that is to be saved: it ends before a
place that saving writes to, or uploads no instrument table. -/
inductive Lacks (s : Soundtrack) (image : Image) : MusicError → Prop where
  | room {offset length : Nat} (target : s.Target image offset length)
      (short : image.size < offset + length) :
      Lacks s image (.outOfRange offset length image.size)
  | table (modified : s.instrumentsModified = true)
      (missing : (Uploads.ofImage (s.saveBanks image).image .common).offset?
        instrumentTableAddress = none) :
      Lacks s image (.addressNotFound instrumentTableAddress .common)

variable {s : Soundtrack} {image : Image} {e : MusicError}

/-- Unless a loop is at fault, a bank cannot be saved for lack of room. -/
theorem BankFault.lacks {bank : Bank} (fault : s.BankFault image bank e)
    (looped : ∀ segment, e ≠ .invalidIndex .loopSegment segment) (dirty : bank ∈ s.dirtyBanks) :
    s.Lacks image e := by
  cases fault with
  | @loop song segment => exact absurd rfl (looped segment)
  | room sized short => exact .room (.block dirty sized) short

theorem size_saveBanks (s : Soundtrack) (image : Image) :
    (s.saveBanks image).image.size = image.size :=
  Saving.size_each Saving.size_saveSongs _ _

theorem lacks_of_saveInstruments (modified : s.instrumentsModified = true)
    (there : image.isLoaded = true)
    (failed : (s.saveBanks image).saveInstruments.outcome = .error e) : s.Lacks image e := by
  have size := size_saveBanks s image
  have filled : (s.saveBanks image).image.isLoaded = true := by
    rw [Image.isLoaded, size]
    exact there
  have instruments : (s.saveBanks image).soundtrack.instruments = s.instruments :=
    (Saving.kept_each_saveSongs s.dirtyBanks { soundtrack := s, image }).instruments
  unfold Saving.saveInstruments at failed
  cases place : (Uploads.ofImage (s.saveBanks image).image .common).offset?
      instrumentTableAddress with
  | none =>
    simp only [place, Saving.fail, Except.error.injEq] at failed
    rw [← failed]
    exact .table modified place
  | some offset =>
    simp only [place] at failed
    obtain ⟨short, same⟩ := Saving.write_failed (by split <;> exact filled) failed
    have kept : (if (s.saveBanks image).soundtrack.instruments.length ≤ instrumentCount then
        s.saveBanks image else (s.saveBanks image).tell (.surplusInstruments
          (s.saveBanks image).soundtrack.instruments.length)).image.size = image.size := by
      split <;> exact size
    rw [kept, instruments] at short same
    rw [same]
    exact .room (.instruments modified place) short

theorem lacks_of_saveSample {saving : Saving} {entry : SampleEntry × Nat}
    (listed : entry.1 ∈ s.entries) (begun : saving.outcome = .ok ())
    (filled : saving.image.isLoaded = true) (size : saving.image.size = image.size)
    (failed : (Saving.saveSample entry saving).outcome = .error e) : s.Lacks image e := by
  unfold Saving.saveSample at failed
  cases modified : entry.1.modified with
  | false => simp [modified, begun] at failed
  | true =>
    cases placed : entry.1.slot with
    | none => simp [modified, placed, Saving.tell, begun] at failed
    | some slot =>
      simp only [modified, placed, Bool.not_true, Bool.false_eq_true, if_false] at failed
      cases written : (saving.write slot.offset entry.1.sample.encoded).outcome with
      | error other =>
        rw [Saving.andThen, written] at failed
        simp only [written, Except.error.injEq] at failed
        obtain ⟨short, same⟩ := Saving.write_failed filled written
        rw [size] at short same
        rw [← failed, same]
        exact .room (.sample listed modified placed) short
      | ok u =>
        rw [Saving.andThen, written] at failed
        simp only at failed
        have kept := Saving.size_write saving slot.offset entry.1.sample.encoded
        have there : (saving.write slot.offset entry.1.sample.encoded).image.isLoaded = true := by
          rw [Image.isLoaded, kept]
          exact filled
        obtain ⟨short, same⟩ := Saving.write_failed there failed
        rw [kept, size] at short same
        rw [same]
        exact .room (.loop listed modified placed) short

/-! ### Whole saves -/

/-- What is written once everything has been checked: the banks, the instrument table where it is
modified, and the samples. -/
def writeAll (s : Soundtrack) (image : Image) : Saving :=
  ((s.saveBanks image).andThen fun saving =>
    if s.instrumentsModified then saving.saveInstruments else saving).andThen fun saving =>
      saving.each s.entries.zipIdx Saving.saveSample

theorem save_eq_of_check (loaded : s.loaded = true) (there : image.isLoaded = true)
    (checked : s.check = .ok ()) :
    s.save image = (s.writeAll image).andThen fun saving =>
      { saving with soundtrack := saving.soundtrack.markSaved } := by
  rw [save, loaded, there, checked]
  rfl

theorem save_of_check (loaded : s.loaded = true) (there : image.isLoaded = true)
    (checked : s.check = .ok ()) :
    (s.save image).image = (s.writeAll image).image ∧
      (s.save image).outcome = (s.writeAll image).outcome := by
  rw [save_eq_of_check loaded there checked]
  unfold Saving.andThen
  split
  · exact ⟨rfl, rfl⟩
  · exact ⟨rfl, rfl⟩

/-- Why nothing is written at all: nothing is loaded, or a check is not passed. -/
inductive Refused (s : Soundtrack) (image : Image) : MusicError → Prop where
  | nothingLoaded (missing : s.loaded = false) : Refused s image .nothingLoaded
  | imageNotLoaded (blank : image.isLoaded = false) : Refused s image .imageNotLoaded
  | check {e : MusicError} (failed : s.check = .error e) : Refused s image e

/-- Saving is refused, or passes all checks and writes. -/
theorem refused_or_checked (s : Soundtrack) (image : Image) :
    (∃ e, s.Refused image e ∧ s.save image = { soundtrack := s, image, outcome := .error e }) ∨
      s.loaded = true ∧ image.isLoaded = true ∧ s.check = .ok () := by
  cases loaded : s.loaded with
  | false =>
    refine Or.inl ⟨_, .nothingLoaded loaded, ?_⟩
    rw [save, loaded]
    rfl
  | true =>
    cases there : image.isLoaded with
    | false =>
      refine Or.inl ⟨_, .imageNotLoaded there, ?_⟩
      rw [save, loaded, there]
      rfl
    | true =>
      cases checked : s.check with
      | error e =>
        refine Or.inl ⟨e, .check checked, ?_⟩
        rw [save, loaded, there, checked]
        rfl
      | ok u => exact Or.inr ⟨rfl, rfl, rfl⟩

theorem save_cases (s : Soundtrack) (image : Image) :
    (s.save image).image = image ∨ s.loaded = true ∧ image.isLoaded = true ∧ s.check = .ok () := by
  rcases refused_or_checked s image with ⟨e, -, stopped⟩ | checked
  · exact Or.inl (by rw [stopped])
  · exact Or.inr checked

/-- When only songs have been changed, nothing but banks is written. -/
theorem writeAll_of_songsOnly (only : s.SongsOnly) (image : Image) :
    s.writeAll image = s.saveBanks image := by
  have unmodified : ∀ entry ∈ s.entries.zipIdx, entry.1.modified = false :=
    fun entry member => only.samples _ (List.fst_mem_of_mem_zipIdx member)
  have same : ∀ saving : Saving, saving.andThen (fun saving => saving) = saving := by
    intro saving
    unfold Saving.andThen
    cases saving.outcome with
    | error e => rfl
    | ok u => rfl
  simp only [writeAll, only.instruments, Bool.false_eq_true, if_false,
    Saving.each_saveSample unmodified, same]

/-- Where banks that have been checked fail to be saved, those before the one at fault have been
saved and nothing else has been written. -/
theorem saveBanks_failed (there : image.isLoaded = true) (checked : s.check = .ok ())
    (failed : (s.saveBanks image).outcome = .error e) :
    ∃ done bank later, s.dirtyBanks = done ++ bank :: later ∧
      let saved := ({ soundtrack := s, image } : Saving).each done Saving.saveSongs
      saved.outcome = .ok () ∧ (s.saveBanks image).image = saved.image ∧
        s.BankFault image bank e :=
  Saving.each_saveSongs_failed rfl there s.nodup_dirtyBanks (checkBank_of_check checked) failed

/-- Banks that are saved have room in the image. -/
theorem room_of_saveBanks (saved : (s.saveBanks image).outcome = .ok ()) {bank : Bank}
    (dirty : bank ∈ s.dirtyBanks) :
    ∃ size, s.payloadSize bank = .ok size ∧
      image.locate bank.offset + (size + 2 * Block.headerSize) ≤ image.size := by
  obtain ⟨before, later, turn⟩ := Saving.exists_turn saved s.nodup_dirtyBanks dirty
  have sized := turn.payloadSize_before.symm.trans
    (Saving.payloadSize_eq (Saving.saveSongs_ok turn.saved).1)
  have inside := (Saving.has_saveSongs turn.saved).size_ge (by simp)
  have size : (Saving.saveSongs bank before).image.size = image.size := by
    have whole := congrArg (·.image.size) turn.through
    simp only [Saving.size_each Saving.size_saveSongs] at whole
    exact whole.symm
  rw [size, Image.locate, Saving.headerOffset_saveSongs turn.saved, turn.header, ← Image.locate,
    List.length_append, Block.length_encode] at inside
  refine ⟨_, sized, Nat.le_trans (Nat.le_of_eq ?_) inside⟩
  simp only [Block.headerSize, List.length_cons, List.length_nil]
  omega

/-- Samples are saved one after another; the one that fails has no place. -/
theorem lacks_of_samples {saving : Saving} (begun : saving.outcome = .ok ())
    (there : image.isLoaded = true) (size : saving.image.size = image.size)
    (failed : (saving.each s.entries.zipIdx Saving.saveSample).outcome = .error e) :
    s.Lacks image e := by
  obtain ⟨done, entry, later, split, before, stopped, -⟩ := Saving.each_failed begun failed
  have listed : entry ∈ s.entries.zipIdx := by rw [split]; simp
  have kept : (saving.each done Saving.saveSample).image.size = image.size := by
    rw [Saving.size_each Saving.size_saveSample, size]
  have filled : (saving.each done Saving.saveSample).image.isLoaded = true := by
    rw [Image.isLoaded, kept]
    exact there
  exact lacks_of_saveSample (List.fst_mem_of_mem_zipIdx listed) before filled kept stopped

/-- Once everything has been checked, a bank that cannot be saved or a place that the image lacks is
at fault. -/
theorem fault_of_writeAll (there : image.isLoaded = true) (checked : s.check = .ok ())
    (failed : (s.writeAll image).outcome = .error e) :
    (∃ bank ∈ s.dirtyBanks, s.BankFault image bank e) ∨ s.Lacks image e := by
  unfold writeAll at failed
  cases banks : (s.saveBanks image).outcome with
  | error other =>
    simp only [Saving.andThen, banks, Except.error.injEq] at failed
    subst failed
    obtain ⟨done, bank, later, split, -, -, fault⟩ := saveBanks_failed there checked banks
    exact Or.inl ⟨bank, by rw [split]; simp, fault⟩
  | ok u =>
    cases modified : s.instrumentsModified with
    | false =>
      simp only [Saving.andThen, banks, modified, Bool.false_eq_true, if_false] at failed
      exact Or.inr (lacks_of_samples banks there (size_saveBanks s image) failed)
    | true =>
      simp only [Saving.andThen, banks, modified, if_true] at failed
      cases instruments : (s.saveBanks image).saveInstruments.outcome with
      | error other =>
        simp only [instruments, Except.error.injEq] at failed
        subst failed
        exact Or.inr (lacks_of_saveInstruments modified there instruments)
      | ok u =>
        simp only [instruments] at failed
        refine Or.inr (lacks_of_samples instruments there ?_ failed)
        rw [Saving.size_saveInstruments, size_saveBanks]

theorem lacks_of_writeAll (there : image.isLoaded = true) (checked : s.check = .ok ())
    (failed : (s.writeAll image).outcome = .error e)
    (looped : ∀ segment, e ≠ .invalidIndex .loopSegment segment) : s.Lacks image e := by
  rcases fault_of_writeAll there checked failed with ⟨bank, dirty, fault⟩ | lacks
  · exact fault.lacks looped dirty
  · exact lacks

/-- Why saving fails: it is refused, a bank cannot be saved, or the image lacks a place. -/
inductive SaveFault (s : Soundtrack) (image : Image) : MusicError → Prop where
  | refused {e : MusicError} (refused : s.Refused image e) : SaveFault s image e
  | bank {bank : Bank} {e : MusicError} (dirty : bank ∈ s.dirtyBanks)
      (fault : s.BankFault image bank e) : SaveFault s image e
  | place {e : MusicError} (lacks : s.Lacks image e) : SaveFault s image e

theorem saveFault_of_save (failed : (s.save image).outcome = .error e) : s.SaveFault image e := by
  rcases refused_or_checked s image with ⟨other, refused, stopped⟩ | ⟨loaded, there, checked⟩
  · rw [stopped, Except.error.injEq] at failed
    exact .refused (failed ▸ refused)
  · rw [(save_of_check loaded there checked).2] at failed
    rcases fault_of_writeAll there checked failed with ⟨bank, dirty, fault⟩ | lacks
    · exact .bank dirty fault
    · exact .place lacks

/-- When only songs have been changed, saving succeeds where all checks are passed, loops lead to
segments, and the image has room for the dirty banks. -/
theorem save_of_room (only : s.SongsOnly) (loaded : s.loaded = true)
    (there : image.isLoaded = true) (checked : s.check = .ok ())
    (looped : ∀ bank ∈ s.dirtyBanks, ∀ song ∈ s.songsIn bank, ∀ segment,
      song.loopPoint = some segment → segment < song.segments.length)
    (room : ∀ bank ∈ s.dirtyBanks, ∀ size, s.payloadSize bank = .ok size →
      image.locate bank.offset + (size + 2 * Block.headerSize) ≤ image.size) :
    (s.save image).outcome = .ok () := by
  rw [(save_of_check loaded there checked).2, writeAll_of_songsOnly only]
  cases outcome : (s.saveBanks image).outcome with
  | ok u => rfl
  | error e =>
    obtain ⟨done, bank, later, split, -, -, fault⟩ := saveBanks_failed there checked outcome
    have dirty : bank ∈ s.dirtyBanks := by rw [split]; simp
    cases fault with
    | loop listed point beyond =>
      exact absurd (looped bank dirty _ listed _ point) (Nat.not_lt_of_le beyond)
    | room sized short => exact absurd (room bank dirty _ sized) (Nat.not_le_of_lt short)

/-- Where there is nothing to save, saving succeeds and writes nothing. -/
theorem save_of_clean (only : s.SongsOnly) (clean : s.dirtyBanks = []) (loaded : s.loaded = true)
    (there : image.isLoaded = true) :
    (s.save image).outcome = .ok () ∧ (s.save image).image = image := by
  have saved := save_of_room only loaded there (check_of_songsOnly only (by simp [clean]))
    (by simp [clean]) (by simp [clean])
  obtain ⟨-, -, written, -⟩ := save_ok only saved
  rw [saveBanks, clean] at written
  exact ⟨saved, written⟩

/-- A save that fails leaves the image as it was, unless the image has no place for something that
was to be written; errors of songs that loop to a segment they lack are left aside. When only songs
were to be saved, the image then holds the banks before the one without place, one at least, and is
otherwise unchanged. -/
theorem failed_save_kept (failed : (s.save image).outcome = .error e)
    (looped : ∀ segment, e ≠ .invalidIndex .loopSegment segment) :
    (s.save image).image = image ∨
      s.Lacks image e ∧ (s.SongsOnly → ∃ done bank later,
        s.dirtyBanks = done ++ bank :: later ∧ done ≠ [] ∧ s.BankFault image bank e ∧
          let saved := ({ soundtrack := s, image } : Saving).each done Saving.saveSongs
          saved.outcome = .ok () ∧ (s.save image).image = saved.image) := by
  rcases save_cases s image with kept | ⟨loaded, there, checked⟩
  · exact Or.inl kept
  · obtain ⟨written, outcome⟩ := save_of_check loaded there checked
    rw [outcome] at failed
    by_cases same : (s.save image).image = image
    · exact Or.inl same
    · refine Or.inr ⟨lacks_of_writeAll there checked failed looped, fun only => ?_⟩
      rw [writeAll_of_songsOnly only] at written failed
      obtain ⟨done, bank, later, split, before, image, fault⟩ :=
        saveBanks_failed there checked failed
      refine ⟨done, bank, later, split, ?_, fault, before, written.trans image⟩
      rintro rfl
      exact same (written.trans image)

end Soundtrack

/-! ### An example -/

/-- An image that ends before the expansion banks. -/
def shortImage : Image := { data := Array.replicate 0x100000 0 }

theorem size_shortImage : shortImage.size = 0x100000 := by
  rw [Image.size, shortImage, Array.size_replicate]

theorem locate_shortImage (offset : Nat) : shortImage.locate offset = offset := by
  rw [Image.locate, Image.headerOffset, size_shortImage]
  rfl

/-- The soundtrack of the image with a song added to the credits and one to the expanded bank. -/
def encore : Soundtrack :=
  ((({} : Soundtrack).load creditsImage).soundtrack.createSong "Encore" .credits).createSong
    "Afterword" .overworldExpanded

def encoreSongs : List Song := creditsSongs ++ [
  { Song.new "Encore" .credits with modified := true },
  { Song.new "Afterword" .overworldExpanded with modified := true }]

theorem extends_encore : (({} : Soundtrack).load creditsImage).soundtrack.Extends encore :=
  ((SongAdditions.none.create "Encore" .credits).create "Afterword"
    .overworldExpanded).extends_start

theorem songs_encore : encore.songs = encoreSongs := by
  rw [encoreSongs, ← songs_creditsImage]
  exact List.append_assoc _ _ _

/-- Where the songs of a soundtrack are those of the image with others behind them, they decide what
is checked and saved. -/
theorem checks_creditsImage {s : Soundtrack} {songs : List Song}
    (more : (({} : Soundtrack).load creditsImage).soundtrack.Extends s) (same : s.songs = songs)
    (fits : ∀ bank, (({ songs } : Soundtrack).checkBank bank).toOption = some ()) :
    s.loaded = true ∧ s.SongsOnly ∧ s.check = .ok () ∧
      s.dirtyBanks = ({ songs } : Soundtrack).dirtyBanks ∧
      ∀ bank ∈ s.dirtyBanks, ∀ size, s.payloadSize bank = .ok size → size ≤ bank.defaultLimit := by
  obtain ⟨loaded, only, config, touched⟩ := more.of_load loads_creditsImage
  have checked : s.check = .ok () := by
    refine Soundtrack.check_of_songsOnly only fun bank _ => ?_
    rw [checkBank_congr (t := { songs }) same config]
    exact Report.ok_of_toOption (fits bank)
  have le : ∀ bank, s.config.limit bank ≤ bank.defaultLimit :=
    fun bank => Nat.le_of_eq (congrArg (·.limit bank) config)
  exact ⟨loaded, only, checked, dirtyBanks_congr (t := { songs }) same touched,
    fun bank dirty size sized => Soundtrack.payloadSize_le_default checked le dirty sized⟩

/-- Such songs are saved to an image that has room for all banks, if none of them loops. -/
theorem saves_unlooped {s : Soundtrack} {songs : List Song} {image : Image}
    (more : (({} : Soundtrack).load creditsImage).soundtrack.Extends s) (same : s.songs = songs)
    (fits : ∀ bank, (({ songs } : Soundtrack).checkBank bank).toOption = some ())
    (unlooped : ∀ song ∈ songs, song.loopPoint = none) (total : image.size = 0x1B0000) :
    (s.save image).outcome = .ok () := by
  obtain ⟨loaded, only, checked, -, limited⟩ := checks_creditsImage more same fits
  have there : image.isLoaded = true := by
    rw [Image.isLoaded, total]
    rfl
  refine Soundtrack.save_of_room only loaded there checked ?_ ?_
  · intro bank _ song listed segment point
    simp [unlooped song (same ▸ (List.mem_filter.mp listed).1)] at point
  · intro bank member size sized
    have short := limited bank member size sized
    have place : image.locate bank.offset = bank.offset := by
      rw [Image.locate, Image.headerOffset, total]
      rfl
    have room : bank.offset + (bank.defaultLimit + 2 * Block.headerSize) ≤ 0x1B0000 := by
      cases bank <;> decide
    omega

theorem fits_encore (bank : Bank) :
    (({ songs := encoreSongs } : Soundtrack).checkBank bank).toOption = some () := by
  cases bank <;> decide +kernel

theorem unlooped_encore : ∀ song ∈ encoreSongs, song.loopPoint = none := by decide +kernel

theorem dirtyBanks_encore : encore.dirtyBanks = [.credits, .overworldExpanded] := by
  obtain ⟨-, -, -, banks, -⟩ :=
    checks_creditsImage extends_encore songs_encore fits_encore
  rw [banks]
  decide +kernel

theorem payloadSize_encore :
    encore.payloadSize .credits = .ok 100 ∧ encore.payloadSize .overworldExpanded = .ok 24 := by
  constructor
  · rw [payloadSize_congr (t := { songs := encoreSongs }) songs_encore]
    exact Report.ok_of_toOption (by decide +kernel)
  · rw [payloadSize_congr (t := { songs := encoreSongs }) songs_encore]
    exact Report.ok_of_toOption (by decide +kernel)

/-- The credits lie in the short image and the expanded bank beyond it. -/
theorem bankFault_encore {bank : Bank} {e : MusicError} (dirty : bank ∈ encore.dirtyBanks)
    (fault : encore.BankFault shortImage bank e) :
    bank = .overworldExpanded ∧ e = .outOfRange 0x1A9EF5 32 0x100000 := by
  rw [dirtyBanks_encore] at dirty
  cases fault with
  | loop listed point beyond =>
    have none := unlooped_encore _ (songs_encore ▸ (List.mem_filter.mp listed).1)
    simp [none] at point
  | room sized short =>
    rw [locate_shortImage, size_shortImage] at short ⊢
    rcases List.mem_cons.mp dirty with rfl | other
    · rw [payloadSize_encore.1, Except.ok.injEq] at sized
      subst sized
      exact absurd short (by decide)
    · obtain rfl := List.mem_singleton.mp other
      rw [payloadSize_encore.2, Except.ok.injEq] at sized
      subst sized
      exact ⟨rfl, rfl⟩

/-- A bank's block tells the address of its table, here the high byte of that of the credits. -/
theorem saveSongs_credits {saving : Saving} (size : saving.image.size = 0x100000)
    (ok : (Saving.saveSongs .credits saving).outcome = .ok ()) :
    (Saving.saveSongs .credits saving).image.data[0xD5383]? = some 0xD0 := by
  have header : (Saving.saveSongs .credits saving).image.headerOffset = 0 := by
    rw [Image.headerOffset, Saving.size_saveSongs, size]
    rfl
  have block := (Saving.has_saveSongs ok).left
  rw [Image.locate, header] at block
  have byte := block 3 (by rw [Block.length_encode, Block.headerSize]; omega)
  rw [show Bank.credits.offset + 0 + 3 = 0xD5383 by decide] at byte
  rw [byte]
  rfl

/-- The credits are saved to the short image before the expanded bank turns out to lie beyond it. -/
theorem encore_half_saved :
    (encore.save shortImage).outcome = .error (.outOfRange 0x1A9EF5 32 0x100000) ∧
      (encore.save shortImage).image.data[0xD5383]? = some 0xD0 := by
  obtain ⟨loaded, only, checked, -, -⟩ :=
    checks_creditsImage extends_encore songs_encore fits_encore
  have there : shortImage.isLoaded = true := by
    rw [Image.isLoaded, size_shortImage]
    rfl
  obtain ⟨image, outcome⟩ := Soundtrack.save_of_check loaded there checked
  rw [Soundtrack.writeAll_of_songsOnly only] at image outcome
  rw [image, outcome]
  cases saved : (encore.saveBanks shortImage).outcome with
  | ok u =>
    obtain ⟨needed, -, room⟩ := Soundtrack.room_of_saveBanks saved
      (show Bank.overworldExpanded ∈ encore.dirtyBanks by rw [dirtyBanks_encore]; decide)
    rw [locate_shortImage, size_shortImage] at room
    have beyond : 0x100000 < Bank.overworldExpanded.offset := by decide
    omega
  | error e =>
    obtain ⟨done, bank, later, split, before, same, fault⟩ :=
      Soundtrack.saveBanks_failed there checked saved
    obtain ⟨rfl, rfl⟩ := bankFault_encore (by rw [split]; simp) fault
    refine ⟨rfl, ?_⟩
    -- the bank without place is the second of two
    rw [dirtyBanks_encore] at split
    cases done with
    | nil => simp at split
    | cons first others =>
      obtain ⟨rfl, tail⟩ := List.cons.inj split
      cases others with
      | cons second rest => simp at tail
      | nil =>
        rw [same, (Saving.each_cons_ok before).2, Saving.each_nil]
        exact saveSongs_credits size_shortImage (Saving.each_cons_ok before).1

theorem encore_changes_shortImage : (encore.save shortImage).image ≠ shortImage := by
  intro same
  have byte := encore_half_saved.2
  rw [same, shortImage, Array.getElem?_replicate, if_pos (by decide)] at byte
  exact absurd byte (by decide)

/-- Saving is not all or nothing: what was written before the image turned out to be too short
stays there. -/
theorem failed_save_changes :
    ¬∀ (start s : Soundtrack) (original image : Image) (e : MusicError),
      (start.load original).outcome = .ok () → SongRun (start.load original).soundtrack s →
      (s.save image).outcome = .error e → (s.save image).image = image := by
  intro kept
  have run : SongRun (({} : Soundtrack).load creditsImage).soundtrack encore :=
    .tail (.tail (.refl _) (.create _ "Encore" .credits)) (.create _ "Afterword" .overworldExpanded)
  exact encore_changes_shortImage
    (kept {} encore creditsImage shortImage _ loads_creditsImage run encore_half_saved.1)

/-- Of the two banks, the credits alone have been saved. -/
theorem encore_failed_save :
    (encore.save shortImage).outcome = .error (.outOfRange 0x1A9EF5 32 0x100000) ∧
      (∀ segment, MusicError.outOfRange 0x1A9EF5 32 0x100000 ≠
        .invalidIndex .loopSegment segment) ∧
      encore.Lacks shortImage (.outOfRange 0x1A9EF5 32 0x100000) ∧
      (encore.SongsOnly → ∃ done bank later,
        encore.dirtyBanks = done ++ bank :: later ∧ done ≠ [] ∧
          encore.BankFault shortImage bank (.outOfRange 0x1A9EF5 32 0x100000) ∧
          let saved := ({ soundtrack := encore, image := shortImage } : Saving).each done
            Saving.saveSongs
          saved.outcome = .ok () ∧ (encore.save shortImage).image = saved.image) := by
  have failed := encore_half_saved.1
  have other : ∀ segment, MusicError.outOfRange 0x1A9EF5 32 0x100000 ≠
      .invalidIndex .loopSegment segment := by simp
  exact ⟨failed, other,
    (Soundtrack.failed_save_kept failed other).resolve_left encore_changes_shortImage⟩

end SnesMusic
