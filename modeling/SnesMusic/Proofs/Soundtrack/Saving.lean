import SnesMusic.Proofs.Soundtrack.Placement
import SnesMusic.Proofs.Upload

/-!
# Saved banks

What saving does to the image. Saving a bank writes its block and its address bytes and nothing
else (`frame_saveSongs`), and leaves the songs of other banks alone. Main statements: saving writes
what the songs of the dirty banks take and nothing else (`takes_save`), and the block of each stands
in the image as it was written, if no bank that is saved later is laid over it (`wrote_save`).
-/
namespace SnesMusic

open LittleEndian

/-! ### Regions -/

namespace Bank

/-- The offsets that the block of a bank takes at most, in an image with a copier header of the
given size. -/
def Holds (bank : Bank) (header i : Nat) : Prop :=
  header + bank.offset ≤ i ∧ i < header + bank.offset + (Block.headerSize + bank.defaultLimit)

/-- The offsets that saving a payload of `size` bytes to a bank writes: its block, the empty block
behind it and its address bytes. -/
def Takes (bank : Bank) (size header i : Nat) : Prop :=
  header + bank.offset ≤ i ∧ i < header + bank.offset + (size + 2 * Block.headerSize) ∨
    ∃ place, bank.pointerBytes = some place ∧
      (i = header + place.low ∨ i = header + place.mid ∨ i = header + place.bank)

theorem pointerBytes_lt {bank : Bank} {place : PointerBytes}
    (known : bank.pointerBytes = some place) :
    place.low < 0x1000 ∧ place.mid < 0x1000 ∧ place.bank < 0x1000 := by
  cases bank <;> simp only [pointerBytes, Option.some.injEq, reduceCtorEq] at known <;> subst known
    <;> decide

theorem offset_ge (bank : Bank) : 0x1000 ≤ bank.offset := by cases bank <;> decide

/-- The header of a block can tell every size up to the end of memory. -/
theorem room_lt (bank : Bank) : bank.room < UInt16.size := by cases bank <;> decide

theorem tableAddress_add_room (bank : Bank) :
    bank.tableAddress.toNat + bank.room = UInt16.size := by cases bank <;> decide

/-- However large the blocks are, what is written for the second bank does not reach into the block
of the first. The credits may reach over the dungeon's block, and the auxiliary bank stands where
the expanded one may reach. -/
def Apart (first second : Bank) : Prop :=
  first.offset + (Block.headerSize + first.room) ≤ second.offset ∨
    second.offset + (second.room + 2 * Block.headerSize) ≤ first.offset ∨
    first = .dungeon ∧ second = .credits ∨ first = .overworldExpanded ∧ second = .auxiliary

instance (first second : Bank) : Decidable (Apart first second) :=
  inferInstanceAs (Decidable (_ ∨ _))

theorem pairwise_apart : all.Pairwise Apart := by decide

end Bank

/-! ### Checks -/

/-- The songs of a bank can be encoded and fit the bank. -/
def Fits (limit : Bank → Nat) (bank : Bank) (songs : List Song) : Prop :=
  ∃ size, songsSpace (songsOf bank songs) = .ok size ∧
    ((songsOf bank songs).length + 1) * 2 + size ≤ limit bank

theorem payloadSize_congr {s t : Soundtrack} (songs : s.songs = t.songs) (bank : Bank) :
    s.payloadSize bank = t.payloadSize bank := by
  rw [Soundtrack.payloadSize, Soundtrack.payloadSize, Soundtrack.songsIn, Soundtrack.songsIn, songs]

theorem checkBank_congr {s t : Soundtrack} (songs : s.songs = t.songs)
    (config : s.config = t.config) (bank : Bank) : s.checkBank bank = t.checkBank bank := by
  rw [Soundtrack.checkBank, Soundtrack.checkBank, payloadSize_congr songs, config]

theorem dirtyBanks_congr {s t : Soundtrack} (songs : s.songs = t.songs)
    (touched : s.touched = t.touched) : s.dirtyBanks = t.dirtyBanks := by
  have same : s.isDirty = t.isDirty := by
    funext bank
    rw [Soundtrack.isDirty, Soundtrack.isDirty, songs, touched]
  rw [Soundtrack.dirtyBanks, Soundtrack.dirtyBanks, same]

theorem payloadSize_ok {s : Soundtrack} {bank : Bank} {size : Nat}
    (sized : s.payloadSize bank = .ok size) :
    ∃ total, songsSpace (songsOf bank s.songs) = .ok total ∧
      size = ((songsOf bank s.songs).length + 1) * 2 + total := by
  have same : s.songsIn bank = songsOf bank s.songs := rfl
  rw [Soundtrack.payloadSize, same] at sized
  cases space : songsSpace (songsOf bank s.songs) with
  | error e => simp [space, bind, Except.bind] at sized
  | ok total =>
    simp only [space, bind, Except.bind, pure, Except.pure, Except.ok.injEq] at sized
    exact ⟨total, rfl, sized.symm⟩

/-- What the check of a bank comes to. -/
theorem checkBank_ok {s : Soundtrack} {bank : Bank} (ok : s.checkBank bank = .ok ()) :
    ∃ size, s.payloadSize bank = .ok size ∧ size ≤ s.config.limit bank ∧ size ≤ bank.room := by
  unfold Soundtrack.checkBank at ok
  cases sized : s.payloadSize bank with
  | error e => simp [sized, bind, Except.bind] at ok
  | ok size =>
    simp only [sized, bind, Except.bind] at ok
    by_cases late : min (s.config.limit bank) bank.room < size
    · simp [late] at ok
    · exact ⟨size, rfl, by omega, by omega⟩

theorem fits_of_payloadSize {limit : Bank → Nat} {s : Soundtrack} {bank : Bank} {size : Nat}
    (sized : s.payloadSize bank = .ok size) (short : size ≤ limit bank) :
    Fits limit bank s.songs := by
  obtain ⟨total, space, sum⟩ := payloadSize_ok sized
  exact ⟨total, space, by omega⟩

theorem fits_of_checkBank {s : Soundtrack} {bank : Bank} (ok : s.checkBank bank = .ok ()) :
    Fits s.config.limit bank s.songs := by
  obtain ⟨size, sized, short, -⟩ := checkBank_ok ok
  exact fits_of_payloadSize sized short

theorem Fits.payloadSize_le {limit : Bank → Nat} {bank : Bank} {s : Soundtrack} {size : Nat}
    (fits : Fits limit bank s.songs) (sized : s.payloadSize bank = .ok size) :
    size ≤ limit bank := by
  obtain ⟨total, space, short⟩ := fits
  obtain ⟨same, sized, sum⟩ := payloadSize_ok sized
  rw [sized, Except.ok.injEq] at space
  omega

/-- What passes a check passes it element by element. -/
theorem forM_ok {α : Type} {f : α → Except MusicError Unit} {xs : List α}
    (passed : xs.forM f = .ok ()) : ∀ x ∈ xs, f x = .ok () := by
  induction xs with
  | nil => simp
  | cons first rest ih =>
    rw [List.forM] at passed
    cases checked : f first with
    | error e => simp [checked, bind, Except.bind] at passed
    | ok u =>
      simp only [checked, bind, Except.bind] at passed
      intro x member
      rcases List.mem_cons.mp member with rfl | later
      · exact checked
      · exact ih passed x later

theorem checkBank_of_check {s : Soundtrack} (ok : s.check = .ok ()) :
    ∀ bank ∈ s.dirtyBanks, s.checkBank bank = .ok () := by
  unfold Soundtrack.check at ok
  cases checked : s.dirtyBanks.forM s.checkBank with
  | error e => simp [checked, bind, Except.bind] at ok
  | ok u => exact forM_ok checked

/-! ### Steps -/

namespace Saving

/-- The payload of a bank's block. -/
def payload (songs : List Song) (body : List UInt8) : List UInt8 :=
  (songs.map (·.address)).flatMap bytes ++ [0, 0] ++ body

/-- Where the songs of a bank begin. -/
def firstAddress (bank : Bank) (songs : List Song) : Nat :=
  bank.tableAddress.toNat + (songs.length + 1) * 2

/-- A bank is saved: its songs lie one after the other behind their table, and the block that holds
table and songs stands in the image. -/
structure Wrote (limit : Bank → Nat) (bank : Bank) (image : Image) (songs moved : List Song)
    (body : List UInt8) : Prop where
  placed : Placed (firstAddress bank songs) songs moved body
  short : (payload moved body).length ≤ limit bank
  has : image.Has (image.locate bank.offset)
    (Block.encode bank.tableAddress (payload moved body))

theorem Wrote.mono {limit limit' : Bank → Nat} {bank : Bank} {image : Image}
    {songs moved : List Song} {body : List UInt8} (w : Wrote limit bank image songs moved body)
    (le : limit bank ≤ limit' bank) : Wrote limit' bank image songs moved body :=
  ⟨w.placed, Nat.le_trans w.short le, w.has⟩

/-- What saving songs leaves alone: everything but the songs and the lengths of their tables. -/
structure Kept (s t : Soundtrack) : Prop where
  config : t.config = s.config
  entries : t.entries = s.entries
  instruments : t.instruments = s.instruments
  instrumentsModified : t.instrumentsModified = s.instrumentsModified

theorem Kept.trans {s t u : Soundtrack} (h : Kept s t) (h' : Kept t u) : Kept s u :=
  ⟨h'.config.trans h.config, h'.entries.trans h.entries, h'.instruments.trans h.instruments,
    h'.instrumentsModified.trans h.instrumentsModified⟩

variable {bank : Bank} {s : Saving} {limit : Bank → Nat}

/-- A bank's songs where saving places them. -/
def placement (bank : Bank) (s : Saving) : Placement :=
  Placement.ofSongs bank (firstAddress bank (songsOf bank s.soundtrack.songs)) s.soundtrack.songs

/-- The payload of the block that saving a bank writes. -/
def blockPayload (bank : Bank) (s : Saving) : List UInt8 :=
  (placement bank s).table ++ [0, 0] ++ (placement bank s).body

theorem blockPayload_eq (placed : (placement bank s).outcome = .ok ()) :
    blockPayload bank s =
      payload (songsOf bank (placement bank s).songs) (placement bank s).body := by
  rw [blockPayload, payload, placement, Placement.table_ofSongs placed]

/-- Songs that can be placed take the room that was computed for them. -/
theorem payloadSize_eq (placed : (placement bank s).outcome = .ok ()) :
    s.soundtrack.payloadSize bank = .ok (blockPayload bank s).length := by
  have laid : Placed _ _ _ (placement bank s).body := Placement.placed_ofSongs placed
  have count : (songsOf bank (placement bank s).songs).length =
      (songsOf bank s.soundtrack.songs).length := laid.length_eq
  have same : s.soundtrack.songsIn bank = songsOf bank s.soundtrack.songs := rfl
  rw [Soundtrack.payloadSize, same, laid.songsSpace_eq, blockPayload_eq placed]
  simp only [bind, Except.bind, pure, Except.pure, payload, List.length_append,
    length_flatMap_bytes, List.length_map, count, List.length_cons, List.length_nil,
    Except.ok.injEq]
  omega

theorem length_blockPayload_eq {size : Nat} (placed : (placement bank s).outcome = .ok ())
    (sized : s.soundtrack.payloadSize bank = .ok size) : (blockPayload bank s).length = size := by
  have same := payloadSize_eq placed
  rw [sized, Except.ok.injEq] at same
  exact same.symm

/-- Songs that fit their bank take no more than its capacity. -/
theorem length_blockPayload (placed : (placement bank s).outcome = .ok ())
    (fits : Fits limit bank s.soundtrack.songs) :
    (blockPayload bank s).length ≤ limit bank :=
  fits.payloadSize_le (payloadSize_eq placed)

/-- Steps that succeed together succeed one by one. -/
theorem andThen_ok {step : Saving → Saving} (ok : (s.andThen step).outcome = .ok ()) :
    s.outcome = .ok () ∧ s.andThen step = step s := by
  unfold andThen at ok ⊢
  cases outcome : s.outcome with
  | error e => simp [outcome] at ok
  | ok u => exact ⟨rfl, rfl⟩

theorem kept_andThen {t : Soundtrack} {step : Saving → Saving} (before : Kept t s.soundtrack)
    (kept : ∀ s : Saving, Kept s.soundtrack (step s).soundtrack) :
    Kept t (s.andThen step).soundtrack := by
  unfold andThen
  cases s.outcome with
  | error e => exact before
  | ok u => exact before.trans (kept s)

theorem kept_writePointer (bank : Bank) (s : Saving) :
    Kept s.soundtrack (s.writePointer bank).soundtrack := by
  unfold writePointer
  cases bank.pointerBytes with
  | none => exact ⟨rfl, rfl, rfl, rfl⟩
  | some place => exact ⟨rfl, rfl, rfl, rfl⟩

theorem kept_saveSongs (bank : Bank) (s : Saving) :
    Kept s.soundtrack (saveSongs bank s).soundtrack := by
  rw [saveSongs]
  split
  · exact ⟨rfl, rfl, rfl, rfl⟩
  · exact kept_andThen (kept_andThen ⟨rfl, rfl, rfl, rfl⟩ (kept_writePointer bank))
      fun s => ⟨rfl, rfl, rfl, rfl⟩

/-- The image after a bank's address bytes are updated, if the bank has some. -/
def pointed (bank : Bank) (image : Image) : Image :=
  match bank.pointerBytes with
  | none => image
  | some place => (image.writePointer place bank.offset).image

/-- The saving with the songs of a bank at their new addresses. -/
def addressed (bank : Bank) (s : Saving) : Saving :=
  { s with soundtrack := { s.soundtrack with songs := (placement bank s).songs } }

/-- Songs that cannot be placed are not written, but those in front have their new addresses. -/
theorem saveSongs_eq_of_refused {e : MusicError} (refused : (placement bank s).outcome = .error e) :
    saveSongs bank s = (addressed bank s).fail e := by
  have same : Placement.ofSongs bank (bank.tableAddress.toNat +
      ((s.soundtrack.songsIn bank).length + 1) * 2) s.soundtrack.songs = placement bank s := rfl
  unfold saveSongs
  simp only [same, refused, addressed]

/-- Songs that are placed are written in one block, and then the bank's address bytes. -/
theorem saveSongs_eq_of_placed (placed : (placement bank s).outcome = .ok ()) :
    saveSongs bank s = (((addressed bank s).write (s.image.locate bank.offset)
      (Block.encode bank.tableAddress (blockPayload bank s) ++ [0, 0, 0, 0])).andThen
        (·.writePointer bank)).andThen
          (·.savedSongs bank (s.soundtrack.songsIn bank).length (blockPayload bank s).length) := by
  have same : Placement.ofSongs bank (bank.tableAddress.toNat +
      ((s.soundtrack.songsIn bank).length + 1) * 2) s.soundtrack.songs = placement bank s := rfl
  unfold saveSongs
  simp only [same, placed, addressed, blockPayload]

/-- What a bank's saving comes down to when it succeeds. -/
theorem saveSongs_ok (ok : (saveSongs bank s).outcome = .ok ()) :
    let written := s.image.tryWrite (s.image.locate bank.offset)
      (Block.encode bank.tableAddress (blockPayload bank s) ++ [0, 0, 0, 0])
    (placement bank s).outcome = .ok () ∧
      (saveSongs bank s).soundtrack.songs = (placement bank s).songs ∧
      written.outcome = .ok () ∧ (saveSongs bank s).image = pointed bank written.image := by
  intro written
  cases placed : (placement bank s).outcome with
  | error e => simp [saveSongs_eq_of_refused placed, fail] at ok
  | ok u =>
    rw [saveSongs_eq_of_placed placed] at ok ⊢
    obtain ⟨through, same⟩ := andThen_ok ok
    obtain ⟨begun, pointing⟩ := andThen_ok through
    rw [same, pointing]
    refine ⟨rfl, ?_, begun, ?_⟩
    · unfold writePointer
      cases bank.pointerBytes <;> rfl
    · rw [writePointer, pointed]
      cases bank.pointerBytes <;> rfl

theorem frame_pointed (bank : Bank) (image : Image) :
    Image.Frame (pointed bank image) image fun i => ∃ place, bank.pointerBytes = some place ∧
      (i = image.headerOffset + place.low ∨ i = image.headerOffset + place.mid ∨
        i = image.headerOffset + place.bank) := by
  unfold pointed
  cases known : bank.pointerBytes with
  | none => exact .refl _ _
  | some place =>
    refine (image.frame_writePointer place bank.offset).mono ?_
    intro i byte
    rw [Image.locate, Image.locate, Image.locate] at byte
    exact ⟨place, rfl, by omega⟩

/-- Updating the address bytes leaves all blocks alone. -/
theorem agree_pointed (bank : Bank) (image : Image) {start stop : Nat}
    (behind : image.locate 0x1000 ≤ start) :
    Image.Agree (pointed bank image) image start stop := by
  unfold pointed
  cases known : bank.pointerBytes with
  | none => exact .refl _ _ _
  | some place =>
    obtain ⟨_, _, _⟩ := Bank.pointerBytes_lt known
    refine (image.frame_writePointer place bank.offset).agree ?_
    intro i low high byte
    unfold Image.locate at behind
    rw [Image.locate, Image.locate, Image.locate] at byte
    omega

theorem headerOffset_saveSongs (ok : (saveSongs bank s).outcome = .ok ()) :
    (saveSongs bank s).image.headerOffset = s.image.headerOffset := by
  obtain ⟨-, -, -, image⟩ := saveSongs_ok ok
  rw [image, (frame_pointed bank _).headerOffset, (Image.frame_tryWrite _ _ _).headerOffset]

/-- The block of a bank that was saved stands in the image with the end of its chain. -/
theorem has_saveSongs (ok : (saveSongs bank s).outcome = .ok ()) :
    (saveSongs bank s).image.Has ((saveSongs bank s).image.locate bank.offset)
      (Block.encode bank.tableAddress (blockPayload bank s) ++ [0, 0, 0, 0]) := by
  obtain ⟨-, -, written, image⟩ := saveSongs_ok ok
  have low := bank.offset_ge
  rw [Image.locate, headerOffset_saveSongs ok, ← Image.locate, image]
  refine (agree_pointed bank _ ?_).has (Nat.le_refl _) (Nat.le_refl _)
    (Image.has_of_tryWrite written)
  rw [Image.locate, Image.locate, (Image.frame_tryWrite _ _ _).headerOffset]
  omega

/-- Saving a bank that fits writes its block. -/
theorem wrote_saveSongs (ok : (saveSongs bank s).outcome = .ok ())
    (fits : Fits limit bank s.soundtrack.songs) :
    ∃ body, Wrote limit bank (saveSongs bank s).image (songsOf bank s.soundtrack.songs)
      (songsOf bank (saveSongs bank s).soundtrack.songs) body := by
  obtain ⟨done, songs, -, -⟩ := saveSongs_ok ok
  have same := blockPayload_eq done
  rw [← songs] at same
  refine ⟨(placement bank s).body, ?_, ?_, ?_⟩
  · rw [songs]
    exact Placement.placed_ofSongs done
  · rw [← same]
    exact length_blockPayload done fits
  · rw [← same]
    exact (has_saveSongs ok).left

/-- Its chain has no other block. -/
theorem chain_saveSongs (ok : (saveSongs bank s).outcome = .ok ())
    (short : (blockPayload bank s).length ≤ bank.room) :
    chain (saveSongs bank s).image bank.uploadBank = [{
      offset := (saveSongs bank s).image.locate bank.offset + Block.headerSize
      address := bank.tableAddress
      bytes := blockPayload bank s }] := by
  have same : bank.uploadBank.offset = bank.offset := rfl
  rw [chain, same, maxBlocks]
  exact chainFrom_of_has_end (has_saveSongs ok) (by simp [blockPayload])
    (Nat.lt_of_le_of_lt short bank.room_lt)

/-- Saving a bank writes nothing else. -/
theorem frame_saveSongs (ok : (saveSongs bank s).outcome = .ok ()) :
    Image.Frame (saveSongs bank s).image s.image
      (bank.Takes (blockPayload bank s).length s.image.headerOffset) := by
  obtain ⟨-, -, -, image⟩ := saveSongs_ok ok
  have block := s.image.frame_tryWrite (s.image.locate bank.offset)
    (Block.encode bank.tableAddress (blockPayload bank s) ++ [0, 0, 0, 0])
  have pointer := frame_pointed bank (s.image.tryWrite (s.image.locate bank.offset)
    (Block.encode bank.tableAddress (blockPayload bank s) ++ [0, 0, 0, 0])).image
  rw [block.headerOffset] at pointer
  rw [image]
  refine (pointer.mono fun i byte => Or.inr byte).trans (block.mono ?_)
  intro i ⟨start, stop⟩
  rw [List.length_append, Block.length_encode] at stop
  simp only [List.length_cons, List.length_nil] at stop
  unfold Image.locate at start stop
  refine Or.inl ⟨by omega, ?_⟩
  unfold Block.headerSize at stop ⊢
  omega

theorem outcome_writePointer (begun : s.outcome = .ok ())
    (large : s.image.locate 0x1000 ≤ s.image.size) : (s.writePointer bank).outcome = .ok () := by
  unfold writePointer
  cases known : bank.pointerBytes with
  | none => exact begun
  | some place =>
    obtain ⟨low, mid, high⟩ := Bank.pointerBytes_lt known
    unfold Image.locate at large
    refine Image.outcome_writePointer _ ?_ ?_ ?_ <;> rw [Image.locate] <;> omega

/-- Saving a bank succeeds where its songs can be placed and the image has room for them. -/
theorem outcome_saveSongs (placed : (placement bank s).outcome = .ok ())
    (room : s.image.locate bank.offset + ((blockPayload bank s).length + 2 * Block.headerSize) ≤
      s.image.size) : (saveSongs bank s).outcome = .ok () := by
  have low := bank.offset_ge
  rw [Image.locate, Block.headerSize] at room
  let block := Block.encode bank.tableAddress (blockPayload bank s) ++ [0, 0, 0, 0]
  have length : block.length = (blockPayload bank s).length + 8 := by
    rw [List.length_append, Block.length_encode, Block.headerSize]
    simp only [List.length_cons, List.length_nil]
    omega
  have written : (s.image.tryWrite (s.image.locate bank.offset) block).outcome = .ok () := by
    refine Image.outcome_tryWrite ?_ (by omega)
    rw [Image.locate, length]
    omega
  have frame := s.image.frame_tryWrite (s.image.locate bank.offset) block
  have pointed : ∀ t : Saving, t.outcome = .ok () →
      t.image = (s.image.tryWrite (s.image.locate bank.offset) block).image →
      (t.writePointer bank).outcome = .ok () := by
    intro t ok same
    refine outcome_writePointer ok ?_
    rw [same, Image.locate, frame.headerOffset, frame.size]
    omega
  have first : ((addressed bank s).write (s.image.locate bank.offset) block).outcome = .ok () :=
    written
  have second := pointed _ first rfl
  rw [saveSongs_eq_of_placed placed, andThen, andThen, first]
  simp only
  rw [second]
  exact second

theorem songs_saveSongs_of_ne (ok : (saveSongs bank s).outcome = .ok ()) {other : Bank}
    (ne : other ≠ bank) :
    songsOf other (saveSongs bank s).soundtrack.songs = songsOf other s.soundtrack.songs := by
  obtain ⟨-, songs, -⟩ := saveSongs_ok ok
  rw [songs]
  exact Placement.songsOf_ofSongs_of_ne ne

/-! ### Runs -/

theorem each_of_error {α : Type} {xs : List α} {step : α → Saving → Saving} {e : MusicError}
    (failed : s.outcome = .error e) : s.each xs step = s := by
  induction xs with
  | nil => rfl
  | cons x rest ih =>
    have same : s.andThen (step x) = s := by rw [andThen, failed]
    rw [each, List.foldl_cons, same]
    exact ih

theorem each_nil {α : Type} (step : α → Saving → Saving) : s.each [] step = s := rfl

theorem each_cons {α : Type} (x : α) (rest : List α) (step : α → Saving → Saving) :
    s.each (x :: rest) step = (s.andThen (step x)).each rest step := rfl

/-- A run that succeeds begins with a step that does. -/
theorem each_cons_ok {α : Type} {x : α} {rest : List α} {step : α → Saving → Saving}
    (ok : (s.each (x :: rest) step).outcome = .ok ()) :
    (step x s).outcome = .ok () ∧ s.each (x :: rest) step = (step x s).each rest step := by
  rw [each_cons] at ok ⊢
  cases outcome : (s.andThen (step x)).outcome with
  | error e =>
    rw [each_of_error outcome, outcome] at ok
    exact absurd ok (by simp)
  | ok u =>
    obtain ⟨-, same⟩ := andThen_ok outcome
    rw [same] at outcome ⊢
    exact ⟨outcome, rfl⟩

theorem kept_each_saveSongs (banks : List Bank) (s : Saving) :
    Kept s.soundtrack (s.each banks saveSongs).soundtrack := by
  induction banks generalizing s with
  | nil => exact ⟨rfl, rfl, rfl, rfl⟩
  | cons bank rest ih =>
    rw [each_cons]
    exact (kept_andThen ⟨rfl, rfl, rfl, rfl⟩ (kept_saveSongs bank)).trans (ih _)

variable {banks : List Bank}

theorem songs_each_saveSongs (ok : (s.each banks saveSongs).outcome = .ok ()) {other : Bank}
    (apart : other ∉ banks) :
    songsOf other (s.each banks saveSongs).soundtrack.songs = songsOf other s.soundtrack.songs := by
  induction banks generalizing s with
  | nil => rfl
  | cons bank rest ih =>
    obtain ⟨first, same⟩ := each_cons_ok ok
    rw [same] at ok ⊢
    rw [List.mem_cons, not_or] at apart
    rw [ih ok apart.2, songs_saveSongs_of_ne first apart.1]

/-- The room that a bank's songs take stays the same when the songs of another are placed. -/
theorem payloadSize_saveSongs (ok : (saveSongs bank s).outcome = .ok ()) {other : Bank}
    (ne : other ≠ bank) :
    (saveSongs bank s).soundtrack.payloadSize other = s.soundtrack.payloadSize other := by
  have same : (saveSongs bank s).soundtrack.songsIn other = s.soundtrack.songsIn other :=
    songs_saveSongs_of_ne ok ne
  rw [Soundtrack.payloadSize, Soundtrack.payloadSize, same]

/-- Saving banks writes what their songs take and nothing else. -/
theorem frame_each_saveSongs (ok : (s.each banks saveSongs).outcome = .ok ())
    (distinct : banks.Nodup) :
    Image.Frame (s.each banks saveSongs).image s.image (fun i => ∃ bank ∈ banks, ∃ size,
      s.soundtrack.payloadSize bank = .ok size ∧ bank.Takes size s.image.headerOffset i) := by
  induction banks generalizing s with
  | nil => exact .refl _ _
  | cons bank rest ih =>
    obtain ⟨first, same⟩ := each_cons_ok ok
    rw [same] at ok ⊢
    obtain ⟨fresh, distinct⟩ := List.nodup_cons.mp distinct
    have own := frame_saveSongs first
    have later := ih ok distinct
    rw [own.headerOffset] at later
    refine (later.mono ?_).trans (own.mono ?_)
    · rintro i ⟨other, member, size, sized, taken⟩
      have ne : other ≠ bank := fun eq => fresh (eq ▸ member)
      rw [payloadSize_saveSongs first ne] at sized
      exact ⟨other, List.mem_cons_of_mem _ member, size, sized, taken⟩
    · intro i taken
      exact ⟨bank, List.mem_cons_self .., _, payloadSize_eq (saveSongs_ok first).1, taken⟩

/-- One bank among those that are saved: where its turn comes, its songs are as they were at the
beginning, and what is saved behind it goes on from there. -/
structure Turn (s : Saving) (banks : List Bank) (bank : Bank) (before : Saving)
    (later : List Bank) : Prop where
  saved : (saveSongs bank before).outcome = .ok ()
  through : s.each banks saveSongs = (saveSongs bank before).each later saveSongs
  finished : ((saveSongs bank before).each later saveSongs).outcome = .ok ()
  songs : songsOf bank before.soundtrack.songs = songsOf bank s.soundtrack.songs
  kept : ∀ other ∈ later,
    (saveSongs bank before).soundtrack.payloadSize other = s.soundtrack.payloadSize other
  header : before.image.headerOffset = s.image.headerOffset
  tail : bank :: later <:+ banks

theorem exists_turn (ok : (s.each banks saveSongs).outcome = .ok ()) (distinct : banks.Nodup)
    (member : bank ∈ banks) : ∃ before later, Turn s banks bank before later := by
  induction banks generalizing s with
  | nil => simp at member
  | cons head rest ih =>
    obtain ⟨first, same⟩ := each_cons_ok ok
    obtain ⟨fresh, others⟩ := List.nodup_cons.mp distinct
    by_cases here : bank = head
    · subst here
      refine ⟨s, rest, first, same, same ▸ ok, rfl, ?_, rfl, List.suffix_refl _⟩
      intro other later
      exact payloadSize_saveSongs first fun eq => fresh (eq ▸ later)
    · have later : bank ∈ rest := (List.mem_cons.mp member).resolve_left here
      obtain ⟨before, behind, turn⟩ := ih (same ▸ ok) others later
      refine ⟨before, behind, turn.saved, same.trans turn.through, turn.finished, ?_, ?_, ?_, ?_⟩
      · rw [turn.songs, songs_saveSongs_of_ne first here]
      · intro other listed
        have there : other ∈ rest := turn.tail.subset (List.mem_cons_of_mem _ listed)
        rw [turn.kept other listed, payloadSize_saveSongs first fun eq => fresh (eq ▸ there)]
      · rw [turn.header, headerOffset_saveSongs first]
      · exact turn.tail.trans (List.suffix_cons _ _)

namespace Turn

variable {before : Saving} {later : List Bank} (turn : Turn s banks bank before later)
include turn

theorem mem_of_later {other : Bank} (listed : other ∈ later) : other ∈ banks :=
  turn.tail.subset (List.mem_cons_of_mem _ listed)

theorem nodup_later (distinct : banks.Nodup) : bank ∉ later ∧ later.Nodup :=
  List.nodup_cons.mp (distinct.sublist turn.tail.sublist)

theorem payloadSize_before :
    before.soundtrack.payloadSize bank = s.soundtrack.payloadSize bank := by
  have songs : before.soundtrack.songsIn bank = s.soundtrack.songsIn bank := turn.songs
  rw [Soundtrack.payloadSize, songs, ← Soundtrack.payloadSize]

end Turn

/-- When banks are saved in their order, the block of one that fits stands in the image, if none
that is saved later reaches into it. -/
theorem wrote_each_of_apart (ok : (s.each banks saveSongs).outcome = .ok ())
    (distinct : banks.Nodup) {bank : Bank} (member : bank ∈ banks)
    (fits : Fits limit bank s.soundtrack.songs)
    (apart : ∀ later, bank :: later <:+ banks → ∀ other ∈ later, ∀ size,
      s.soundtrack.payloadSize other = .ok size →
        bank.offset + (Block.headerSize + limit bank) ≤ other.offset ∨
          other.offset + (size + 2 * Block.headerSize) ≤ bank.offset) :
    ∃ body, Wrote limit bank (s.each banks saveSongs).image (songsOf bank s.soundtrack.songs)
      (songsOf bank (s.each banks saveSongs).soundtrack.songs) body := by
  obtain ⟨before, later, turn⟩ := exists_turn ok distinct member
  obtain ⟨fresh, others⟩ := turn.nodup_later distinct
  have fitting : Fits limit bank before.soundtrack.songs := by
    rw [Fits, turn.songs]
    exact fits
  obtain ⟨body, placed, short, has⟩ := wrote_saveSongs turn.saved fitting
  have frame := frame_each_saveSongs turn.finished others
  rw [turn.songs] at placed
  rw [turn.through]
  refine ⟨body, ?_, ?_, ?_⟩
  · rw [songs_each_saveSongs turn.finished fresh]
    exact placed
  · rw [songs_each_saveSongs turn.finished fresh]
    exact short
  · rw [songs_each_saveSongs turn.finished fresh, Image.locate, frame.headerOffset, ← Image.locate]
    refine (frame.agree ?_).has (Nat.le_refl _) (Nat.le_refl _) has
    rintro i start stop ⟨other, listed, size, sized, taken⟩
    rw [turn.kept other listed] at sized
    have above := bank.offset_ge
    rw [Block.length_encode] at stop
    unfold Image.locate at start stop
    rcases taken with ⟨low, high⟩ | ⟨place, known, byte⟩
    · rcases apart later turn.tail other listed size sized with front | behind <;> omega
    · obtain ⟨_, _, _⟩ := Bank.pointerBytes_lt known
      omega

/-- Unmodified samples are not written. -/
theorem each_saveSample {entries : List (SampleEntry × Nat)}
    (unmodified : ∀ entry ∈ entries, entry.1.modified = false) :
    s.each entries saveSample = s := by
  induction entries generalizing s with
  | nil => rfl
  | cons entry rest ih =>
    have skipped : s.andThen (saveSample entry) = s := by
      unfold andThen
      cases s.outcome with
      | error e => rfl
      | ok u => simp [saveSample, unmodified entry (List.mem_cons_self ..)]
    rw [each_cons, skipped]
    exact ih fun other member => unmodified other (List.mem_cons_of_mem _ member)

end Saving

/-! ### Soundtracks -/

/-- The song with nothing left to save. -/
def Song.saved (s : Song) : Song := { s with modified := false }

namespace Soundtrack

/-- Only songs have been changed since the soundtrack was loaded or saved. -/
structure SongsOnly (s : Soundtrack) : Prop where
  instruments : s.instrumentsModified = false
  samples : ∀ entry ∈ s.entries, entry.modified = false

/-- The banks are saved one after the other. -/
def saveBanks (s : Soundtrack) (image : Image) : Saving :=
  ({ soundtrack := s, image } : Saving).each s.dirtyBanks Saving.saveSongs

variable {s : Soundtrack} {image : Image}

theorem save_ok (only : s.SongsOnly) (ok : (s.save image).outcome = .ok ()) :
    s.check = .ok () ∧ (s.saveBanks image).outcome = .ok () ∧
      (s.save image).image = (s.saveBanks image).image ∧
      (s.save image).soundtrack = (s.saveBanks image).soundtrack.markSaved := by
  have kept := Saving.kept_each_saveSongs s.dirtyBanks { soundtrack := s, image }
  unfold save at ok ⊢
  by_cases missing : (!s.loaded) = true
  · simp [missing, Saving.fail] at ok
  · rw [if_neg missing] at ok ⊢
    by_cases blank : (!image.isLoaded) = true
    · simp [blank, Saving.fail] at ok
    · rw [if_neg blank] at ok ⊢
      cases checked : s.check with
      | error e => simp [checked, Saving.fail] at ok
      | ok u =>
        have unmodified : ∀ entry ∈ s.entries.zipIdx, entry.1.modified = false :=
          fun entry member => only.samples _ (List.fst_mem_of_mem_zipIdx member)
        simp only [checked, only.instruments, Bool.false_eq_true, if_false,
          Saving.each_saveSample unmodified] at ok ⊢
        obtain ⟨samples, last⟩ := Saving.andThen_ok ok
        obtain ⟨instruments, third⟩ := Saving.andThen_ok samples
        obtain ⟨songs, second⟩ := Saving.andThen_ok instruments
        rw [last, third, second]
        exact ⟨trivial, songs, rfl, rfl⟩

/-- Where no sample is modified, the checks are those of the dirty banks. -/
theorem check_of_fits (unmodified : ∀ entry ∈ s.entries, entry.modified = false)
    (fits : ∀ bank ∈ s.dirtyBanks, s.checkBank bank = .ok ()) : s.check = .ok () := by
  have each : ∀ {α : Type} {xs : List α} {f : α → Except MusicError Unit},
      (∀ x ∈ xs, f x = .ok ()) → xs.forM f = .ok () := by
    intro α xs f pass
    induction xs with
    | nil => rfl
    | cons x rest ih =>
      rw [List.forM, pass x (List.mem_cons_self ..)]
      exact ih fun other member => pass other (List.mem_cons_of_mem _ member)
  have samples : ∀ entry ∈ s.entries, checkSample entry = .ok () := by
    intro entry member
    rw [checkSample, unmodified entry member]
  rw [check, each fits]
  exact each samples

theorem check_of_songsOnly (only : s.SongsOnly)
    (fits : ∀ bank ∈ s.dirtyBanks, s.checkBank bank = .ok ()) : s.check = .ok () :=
  check_of_fits only.samples fits

/-- The only bank to save is the one that was touched, where no other has modified songs. -/
theorem dirtyBanks_of_alone {bank : Bank}
    (touched : s.touched = Bank.update (fun _ => false) bank true)
    (own : ∀ song ∈ s.songs, song.modified = true → song.bank = bank) : s.dirtyBanks = [bank] := by
  have dirty : s.isDirty = (· == bank) := by
    funext other
    rw [isDirty, touched]
    by_cases same : other = bank
    · simp [same]
    · rw [Bank.update_of_ne _ _ same, Bool.false_or, beq_false_of_ne same, List.any_eq_false]
      intro song member modified
      rw [Bool.and_eq_true, beq_iff_eq] at modified
      exact same (modified.2 ▸ own song member modified.1)
  rw [dirtyBanks, dirty]
  cases bank <;> rfl

/-- Where a single bank has songs to save, which fit and can be placed, saving succeeds and comes
down to saving these. -/
theorem save_of_alone {bank : Bank} (only : s.SongsOnly) (loaded : s.loaded = true)
    (alone : s.dirtyBanks = [bank]) (fits : s.checkBank bank = .ok ())
    (placed : (Saving.placement bank { soundtrack := s, image }).outcome = .ok ())
    (room : image.locate bank.offset + (s.config.limit bank + 2 * Block.headerSize) ≤ image.size) :
    (s.save image).outcome = .ok () ∧
      (s.save image).image = (Saving.saveSongs bank { soundtrack := s, image }).image ∧
      (Saving.saveSongs bank { soundtrack := s, image }).outcome = .ok () := by
  have saved : (Saving.saveSongs bank { soundtrack := s, image }).outcome = .ok () :=
    Saving.outcome_saveSongs placed (Nat.le_trans (Nat.add_le_add_left (Nat.add_le_add_right
      (Saving.length_blockPayload placed (fits_of_checkBank fits)) _) _) room)
  have there : image.isLoaded = true := by
    have low := bank.offset_ge
    unfold Image.locate at room
    rw [Image.isLoaded, bne_iff_ne]
    omega
  have checked : s.check = .ok () := by
    refine check_of_songsOnly only fun other member => ?_
    rw [alone, List.mem_singleton] at member
    rw [member, fits]
  have single : ({ soundtrack := s, image } : Saving).each [bank] Saving.saveSongs =
      Saving.saveSongs bank { soundtrack := s, image } := rfl
  have unmodified : ∀ entry ∈ s.entries.zipIdx, entry.1.modified = false :=
    fun entry member => only.samples _ (List.fst_mem_of_mem_zipIdx member)
  rw [save, loaded, there, checked]
  simp only [Bool.not_true, Bool.false_eq_true, if_false, alone, single, only.instruments,
    Saving.each_saveSample unmodified, Saving.andThen, saved]
  exact ⟨trivial, trivial, trivial⟩

theorem nodup_dirtyBanks (s : Soundtrack) : s.dirtyBanks.Nodup := by
  have all : Bank.all.Nodup := by decide
  exact all.filter _

theorem pairwise_dirtyBanks (s : Soundtrack) : s.dirtyBanks.Pairwise Bank.Apart :=
  Bank.pairwise_apart.filter _

/-- With capacities not above the defaults, what is saved to a bank is no larger than its default
capacity. -/
theorem payloadSize_le_default (checked : s.check = .ok ())
    (le : ∀ bank, s.config.limit bank ≤ bank.defaultLimit) {bank : Bank}
    (dirty : bank ∈ s.dirtyBanks) {size : Nat} (sized : s.payloadSize bank = .ok size) :
    size ≤ bank.defaultLimit :=
  Nat.le_trans ((fits_of_checkBank (checkBank_of_check checked bank dirty)).payloadSize_le sized)
    (le bank)

/-- The offsets that a save of songs writes. -/
def SaveTakes (s : Soundtrack) (header i : Nat) : Prop :=
  ∃ bank ∈ s.dirtyBanks, ∃ size, s.payloadSize bank = .ok size ∧ bank.Takes size header i

/-- When only songs have been changed, saving writes what the songs of the dirty banks take and
nothing else. -/
theorem takes_save (only : s.SongsOnly) (ok : (s.save image).outcome = .ok ()) :
    Image.Frame (s.save image).image image (s.SaveTakes image.headerOffset) := by
  obtain ⟨-, saved, written, -⟩ := save_ok only ok
  rw [written]
  exact Saving.frame_each_saveSongs saved s.nodup_dirtyBanks

/-! ### Blocks over one another -/

/-- The credits, when they are saved, end in front of the dungeon's block. The default capacity of
the credits ensures it. -/
def CreditsApart (s : Soundtrack) : Prop :=
  Bank.credits ∈ s.dirtyBanks → ∀ size, s.payloadSize .credits = .ok size →
    Bank.credits.offset + (size + 2 * Block.headerSize) ≤ Bank.dungeon.offset

/-- The expanded bank's block, when the auxiliary bank is saved too, ends in front of the auxiliary
one's. The default capacity of the expanded bank ensures it. -/
def ExpandedApart (s : Soundtrack) : Prop :=
  Bank.auxiliary ∈ s.dirtyBanks → ∀ size, s.payloadSize .overworldExpanded = .ok size →
    Bank.overworldExpanded.offset + (Block.headerSize + size) ≤ Bank.auxiliary.offset

/-- No bank that is saved later is laid over the block of the bank. -/
structure BlockApart (s : Soundtrack) (bank : Bank) : Prop where
  credits : bank = .dungeon → s.CreditsApart
  expanded : bank = .overworldExpanded → s.ExpandedApart

theorem BlockApart.of_game {bank : Bank} (game : bank.isExpansion = false)
    (apart : bank = .dungeon → s.CreditsApart) : s.BlockApart bank where
  credits := apart
  expanded := by
    rintro rfl
    exact absurd game (by decide)

/-- Blocks that are saved stand apart where none is larger than its bank's default capacity. -/
theorem BlockApart.of_default (short : ∀ bank ∈ s.dirtyBanks, ∀ size,
      s.payloadSize bank = .ok size → size ≤ bank.defaultLimit) {bank : Bank}
    (dirty : bank ∈ s.dirtyBanks) : s.BlockApart bank where
  credits := by
    intro _ saved size sized
    have short := short _ saved _ sized
    have room : Bank.credits.offset + (Bank.credits.defaultLimit + 2 * Block.headerSize) ≤
        Bank.dungeon.offset := by decide
    omega
  expanded := by
    rintro rfl _ size sized
    have short := short _ dirty _ sized
    have room : Bank.overworldExpanded.offset +
        (Block.headerSize + Bank.overworldExpanded.defaultLimit) ≤ Bank.auxiliary.offset := by
      decide
    omega

/-- When only songs have been changed, saving lays out the songs of each dirty bank, and its block
stands in the saved image if no other is laid over it. -/
theorem wrote_save (only : s.SongsOnly) (ok : (s.save image).outcome = .ok ()) {bank : Bank}
    (dirty : bank ∈ s.dirtyBanks) (apart : s.BlockApart bank) :
    ∃ moved body,
      Saving.Wrote (fun bank => min (s.config.limit bank) bank.room) bank (s.save image).image
        (s.songsIn bank) moved body ∧
      (s.save image).soundtrack.songsIn bank = moved.map Song.saved := by
  obtain ⟨checked, saved, written, after⟩ := save_ok only ok
  have fits := checkBank_of_check checked
  obtain ⟨size, sized, limited, room⟩ := checkBank_ok (fits bank dirty)
  have fitting : Fits (fun _ => size) bank s.songs := fits_of_payloadSize sized (Nat.le_refl _)
  have spared : ∀ later, bank :: later <:+ s.dirtyBanks → ∀ other ∈ later, ∀ needed,
      s.payloadSize other = .ok needed →
        bank.offset + (Block.headerSize + size) ≤ other.offset ∨
          other.offset + (needed + 2 * Block.headerSize) ≤ bank.offset := by
    intro later tail other listed needed computed
    have there := tail.subset (List.mem_cons_of_mem _ listed)
    obtain ⟨same, own, -, below⟩ := checkBank_ok (fits other there)
    rw [computed, Except.ok.injEq] at own
    have clear := (List.pairwise_cons.mp (s.pairwise_dirtyBanks.sublist tail.sublist)).1 other
      listed
    rcases clear with front | behind | ⟨rfl, rfl⟩ | ⟨rfl, rfl⟩
    · exact Or.inl (by omega)
    · exact Or.inr (by omega)
    · exact Or.inr (apart.credits rfl there needed computed)
    · exact Or.inl (apart.expanded rfl there size sized)
  obtain ⟨body, wrote⟩ :=
    Saving.wrote_each_of_apart saved s.nodup_dirtyBanks dirty fitting spared
  refine ⟨songsOf bank (s.saveBanks image).soundtrack.songs, body, ?_, ?_⟩
  · rw [written]
    exact wrote.mono (Nat.le_min.mpr ⟨limited, room⟩)
  · rw [after, songsIn, markSaved, List.filter_map]
    rfl

end Soundtrack
end SnesMusic
