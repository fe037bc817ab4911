import SnesMusic.Proofs.Soundtrack.Neighbours
import SnesMusic.Soundtrack.Space

/-!
# What the report of space tells about saving

The report sums the sizes of a bank's songs. Saving also needs the words of the song table and may
not reach past the end of memory, both of which the report leaves out. Main statements: where the
report leaves room for the table and memory is not exceeded, neither the size of songs nor what
cannot be encoded keeps them from being saved (`report_predicts_save`), and free bytes alone do not
tell so (`free_bytes_overflow`).
-/
namespace SnesMusic

/-! ### Songs in the report -/

/-- The report counts no song apart exactly when all have a size, and then sums the sizes. -/
theorem sizeSongs_eq_iff {songs : List Song} {used : Nat} :
    (sizeSongs songs).value = (used, 0) ↔ songsSpace songs = .ok used := by
  induction songs generalizing used with
  | nil => simp [sizeSongs, songsSpace, eq_comm]
  | cons song rest ih =>
    cases own : song.requiredSpace with
    | error e => simp [sizeSongs, songsSpace, own, bind, Except.bind]
    | ok size =>
      have reported : (sizeSongs (song :: rest)).value =
          (size + (sizeSongs rest).value.1, (sizeSongs rest).value.2) := by
        rw [sizeSongs, own]
      rw [reported]
      constructor
      · intro same
        obtain ⟨sum, none⟩ := Prod.mk.inj same
        have others := ih.mp (Prod.ext rfl none)
        rw [songsSpace, own, others, ← sum]
        rfl
      · intro space
        obtain ⟨first, others, same, later, sum⟩ := songsSpace_cons_ok space
        rw [own, Except.ok.injEq] at same
        rw [ih.mpr later, same, sum]

/-- The capacity in the report is never above the configured one. -/
theorem signedTotal_le (total : Nat) : signedTotal total ≤ total := by
  unfold signedTotal Int.bmod UInt64.size
  simp only
  split <;> omega

namespace Soundtrack

variable {s : Soundtrack} {bank : Bank} {image : Image}

theorem used_usage (s : Soundtrack) (bank : Bank) :
    (s.usage bank).value.used = (sizeSongs (s.songsIn bank)).value.1 := rfl

theorem unencodable_usage (s : Soundtrack) (bank : Bank) :
    (s.usage bank).value.unencodable = (sizeSongs (s.songsIn bank)).value.2 := rfl

theorem free_usage (s : Soundtrack) (bank : Bank) : (s.usage bank).value.free =
    signedTotal (s.config.limit bank) - (s.usage bank).value.used := rfl

/-- What has to be written for a bank's songs is what the report sums and the words of the table. -/
theorem payloadSize_of_usage (encodable : (s.usage bank).value.unencodable = 0) :
    s.payloadSize bank =
      .ok (((s.songsIn bank).length + 1) * 2 + (s.usage bank).value.used) := by
  have reported : (sizeSongs (s.songsIn bank)).value = ((s.usage bank).value.used, 0) :=
    Prod.ext rfl encodable
  rw [payloadSize, sizeSongs_eq_iff.mp reported]
  rfl

/-- A bank whose songs can be encoded and, by the report, leave room for the words of their table,
both below the capacity and below the end of memory. -/
structure Roomy (s : Soundtrack) (bank : Bank) : Prop where
  encodable : (s.usage bank).value.unencodable = 0
  free : (((s.songsIn bank).length + 1) * 2 : Int) ≤ (s.usage bank).value.free
  memory : ((s.songsIn bank).length + 1) * 2 + (s.usage bank).value.used ≤ bank.room

theorem checkBank_of_roomy (roomy : s.Roomy bank) : s.checkBank bank = .ok () := by
  have capacity := signedTotal_le (s.config.limit bank)
  have left := s.free_usage bank
  have free := roomy.free
  have memory := roomy.memory
  have fits : ¬min (s.config.limit bank) bank.room <
      ((s.songsIn bank).length + 1) * 2 + (s.usage bank).value.used := by omega
  simp only [checkBank, payloadSize_of_usage roomy.encodable, bind, Except.bind, fits, if_false]
  rfl

/-- The only dirty bank is too full to be saved. -/
theorem check_of_overflow {needed : Nat} (alone : s.dirtyBanks = [bank])
    (sized : s.payloadSize bank = .ok needed)
    (large : min (s.config.limit bank) bank.room < needed) :
    s.check =
      .error (.overflow (.bank bank) needed (min (s.config.limit bank) bank.room)) := by
  have refused : s.checkBank bank =
      .error (.overflow (.bank bank) needed (min (s.config.limit bank) bank.room)) := by
    simp only [checkBank, sized, bind, Except.bind, large, if_true]
    rfl
  rw [check, alone, List.forM, refused]
  rfl

/-- Where the report leaves room for the tables of all dirty banks, songs are not too large to be
saved and none is met that cannot be encoded. If moreover their loops lead to segments, no segment
is missed. -/
theorem report_predicts_save (roomy : ∀ bank ∈ s.dirtyBanks, s.Roomy bank)
    (unmodified : ∀ entry ∈ s.entries, entry.modified = false) (image : Image) :
    (∀ store needed limit, (s.save image).outcome ≠ .error (.overflow store needed limit)) ∧
    (∀ fault, (s.save image).outcome ≠ .error (.unencodable fault)) ∧
    ((∀ bank ∈ s.dirtyBanks, ∀ song ∈ s.songsIn bank, ∀ segment,
        song.loopPoint = some segment → segment < song.segments.length) →
      ∀ list index, (s.save image).outcome ≠ .error (.invalidIndex list index)) := by
  have checked : s.check = .ok () :=
    check_of_fits unmodified fun bank dirty => checkBank_of_roomy (roomy bank dirty)
  have passed : ∀ e, s.Refused image e → e = .nothingLoaded ∨ e = .imageNotLoaded := by
    intro e refused
    cases refused with
    | nothingLoaded missing => exact Or.inl rfl
    | imageNotLoaded blank => exact Or.inr rfl
    | check failed => simp [checked] at failed
  refine ⟨fun store needed limit failed => ?_, fun fault failed => ?_,
    fun looped list index failed => ?_⟩
  · cases saveFault_of_save failed with
    | refused refused => simpa using passed _ refused
    | bank dirty fault => cases fault
    | place lacks => cases lacks
  · cases saveFault_of_save failed with
    | refused refused => simpa using passed _ refused
    | bank dirty fault => cases fault
    | place lacks => cases lacks
  · cases saveFault_of_save failed with
    | refused refused => simpa using passed _ refused
    | place lacks => cases lacks
    | bank dirty fault =>
      cases fault with
      | loop listed point beyond =>
        exact absurd (looped _ dirty _ listed _ point) (Nat.not_lt_of_le beyond)

/-- Room in the report is not enough. Here it has room for the songs and their table, as the bank's
capacity lies beyond the end of memory, but what is to be saved does not fit before that end. -/
example :
    let s : Soundtrack := {
      config := ({} : Config).withLimit .credits 0x8000
      songs := List.replicate 16 { silentSong 43 with bank := .credits } }
    2 * (16 + 1) ≤ (s.usage .credits).value.free ∧ (s.usage .credits).value.unencodable = 0 ∧
      (s.payloadSize .credits).toOption = some 12450 ∧ Bank.room .credits = 12288 ∧
      s.check.toOption = none := by decide +kernel

end Soundtrack

/-! ### An example -/

/-- A song of silent segments in the credits. -/
def silentCredits (count : Nat) : Song := { silentSong count with bank := .credits }

theorem songsSpace_silentCredits (count : Nat) :
    songsSpace [silentCredits count] = .ok (18 * count + 2) := by
  have size : (silentCredits count).requiredSpace = .ok (18 * count + 2) :=
    requiredSpace_silentSong count
  rw [songsSpace, size]
  rfl

/-- The soundtrack of the image with the song added. -/
def longCredits (count : Nat) : Soundtrack :=
  (({} : Soundtrack).load creditsImage).soundtrack.addSong (silentCredits count)

theorem extends_longCredits (count : Nat) :
    (({} : Soundtrack).load creditsImage).soundtrack.Extends (longCredits count) :=
  (SongAdditions.none.add (silentCredits count)).extends_start

theorem songs_longCredits (count : Nat) :
    (longCredits count).songs = creditsSongs ++ [silentCredits count] := by
  rw [← songs_creditsImage]
  rfl

theorem dirtyBanks_longCredits (count : Nat) : (longCredits count).dirtyBanks = [.credits] := by
  obtain ⟨-, -, -, touched⟩ := (extends_longCredits count).of_load loads_creditsImage
  rw [dirtyBanks_congr (t := { songs := creditsSongs ++ [silentCredits count] })
    (songs_longCredits count) touched]
  rfl

theorem songsIn_longCredits (count : Nat) : (longCredits count).songsIn .credits =
    songsOf .credits creditsSongs ++ [silentCredits count] := by
  rw [Soundtrack.songsIn, songs_longCredits, List.filter_append]
  rfl

/-- The credits have three songs of 70 bytes, which leave 4130 of their 4200. -/
theorem usage_longCredits (count : Nat) :
    ((longCredits count).songsIn .credits).length = 4 ∧
      ((longCredits count).usage .credits).value.used = 18 * count + 72 ∧
      ((longCredits count).usage .credits).value.free = 4128 - 18 * count ∧
      ((longCredits count).usage .credits).value.unencodable = 0 := by
  have vanilla : songsSpace (songsOf .credits creditsSongs) = .ok 70 :=
    Report.ok_of_toOption (by decide +kernel)
  have reported :=
    sizeSongs_eq_iff.mpr (songsSpace_append vanilla (songsSpace_silentCredits count))
  have used : ((longCredits count).usage .credits).value.used = 18 * count + 72 := by
    rw [Soundtrack.used_usage, songsIn_longCredits, reported]
    omega
  obtain ⟨-, -, config, -⟩ := (extends_longCredits count).of_load loads_creditsImage
  have limit : (longCredits count).config.limit .credits = 4200 := by rw [config]; rfl
  have total : signedTotal 4200 = 4200 := by decide
  have three : (songsOf .credits creditsSongs).length = 3 := by decide +kernel
  refine ⟨by rw [songsIn_longCredits, List.length_append, three]; rfl, used, ?_, ?_⟩
  · rw [Soundtrack.free_usage, used, limit, total]
    omega
  · rw [Soundtrack.unencodable_usage, songsIn_longCredits, reported]

theorem unmodified_longCredits (count : Nat) :
    ∀ entry ∈ (longCredits count).entries, entry.modified = false :=
  ((extends_longCredits count).of_load loads_creditsImage).2.1.samples

/-- The report says that six bytes are free, but the five words of the table take ten. -/
theorem free_bytes_overflow :
    ¬∀ (start s : Soundtrack) (original image : Image),
      (start.load original).outcome = .ok () → SongRun (start.load original).soundtrack s →
      (∀ bank ∈ s.dirtyBanks, 0 ≤ (s.usage bank).value.free ∧
        (s.usage bank).value.unencodable = 0) →
      (∀ entry ∈ s.entries, entry.modified = false) →
      (∀ store needed limit, (s.save image).outcome ≠ .error (.overflow store needed limit)) ∧
        (∀ fault, (s.save image).outcome ≠ .error (.unencodable fault)) ∧
        ∀ list index, (s.save image).outcome ≠ .error (.invalidIndex list index) := by
  intro predicted
  have run : SongRun (({} : Soundtrack).load creditsImage).soundtrack (longCredits 229) :=
    .tail (.refl _) (.add _ (silentCredits 229))
  obtain ⟨count, used, free, encodable⟩ := usage_longCredits 229
  have dirty : ∀ bank ∈ (longCredits 229).dirtyBanks, bank = .credits := by
    intro bank member
    rw [dirtyBanks_longCredits] at member
    exact List.mem_singleton.mp member
  refine (predicted {} (longCredits 229) creditsImage creditsImage loads_creditsImage run ?_
    (unmodified_longCredits 229)).1 (.bank .credits) 4204 4200 ?_
  · intro bank member
    rw [dirty bank member, free, encodable]
    decide
  · obtain ⟨loaded, -, config, -⟩ := (extends_longCredits 229).of_load loads_creditsImage
    have sized : (longCredits 229).payloadSize .credits = .ok 4204 := by
      rw [Soundtrack.payloadSize_of_usage encodable, count, used]
    have limit : min ((longCredits 229).config.limit .credits) (Bank.room .credits) = 4200 := by
      rw [config]
      decide
    have refused := Soundtrack.check_of_overflow (dirtyBanks_longCredits 229) sized
      (by rw [limit]; decide)
    rw [Soundtrack.save, loaded, isLoaded_creditsImage, refused, limit]
    rfl

/-- With a segment less the table has room, and the song is not too large to be saved. -/
theorem long_credits_fit :
    (∀ bank ∈ (longCredits 228).dirtyBanks, (longCredits 228).Roomy bank) ∧
      (∀ entry ∈ (longCredits 228).entries, entry.modified = false) ∧
      ∀ store needed limit,
        ((longCredits 228).save creditsImage).outcome ≠ .error (.overflow store needed limit) := by
  obtain ⟨count, used, free, encodable⟩ := usage_longCredits 228
  have roomy : ∀ bank ∈ (longCredits 228).dirtyBanks, (longCredits 228).Roomy bank := by
    intro bank member
    rw [dirtyBanks_longCredits] at member
    obtain rfl := List.mem_singleton.mp member
    constructor
    · exact encodable
    · rw [count, free]
      decide
    · rw [count, used]
      decide
  have unmodified := unmodified_longCredits 228
  exact ⟨roomy, unmodified, (Soundtrack.report_predicts_save roomy unmodified creditsImage).1⟩

end SnesMusic
