import SnesMusic.Soundtrack.Load

/-!
# Lengths of song tables

The words of a table are counted up to the lowest song that they point to, and that song is found
while they are counted. A word is counted before it is looked at, and what is asked of it is that it
begins in front of that song, not that it ends there. Main statements: what is known after each word
(`Scanned.push`), and that a counted table is clear of the songs it counts but for the song that its
last word points to and for songs that begin at its last byte (`tableLength_clear_iff`).
-/
namespace SnesMusic

/-- The first `count` words of a table lie in front of every song that they point to. Words that do
not point behind the beginning of the table point to no song of its own. -/
def ClearOfSongs (address : UInt16) (entries : List UInt16) (count : Nat) : Prop :=
  ∀ e ∈ entries.take count, address < e → address.toNat + 2 * count ≤ e.toNat

instance (address : UInt16) (entries : List UInt16) (count : Nat) :
    Decidable (ClearOfSongs address entries count) :=
  List.decidableBAll _ _

/-! ### The scan -/

/-- What is known when the words `counted` have been counted. The lowest song is the end of memory
or one that they point to, and every word but the last began in front of it. -/
structure Scanned (address lowest : Nat) (counted : List UInt16) : Prop where
  below : ∀ e ∈ counted, address < e.toNat → lowest ≤ e.toNat
  found : lowest = 0x10000 ∨ ∃ e ∈ counted, address < e.toNat ∧ e.toNat = lowest
  ahead : ∀ e ∈ counted.dropLast, address < e.toNat → address + 2 * (counted.length - 1) < e.toNat

namespace Scanned

variable {address lowest : Nat} {counted : List UInt16}

theorem nil (address : Nat) : Scanned address 0x10000 [] where
  below := by simp
  found := Or.inl rfl
  ahead := by simp

/-- A word that begins in front of the lowest song is counted. -/
theorem push (h : Scanned address lowest counted) (room : address + 2 * counted.length < lowest)
    (entry : UInt16) :
    Scanned address
      (if entry ≠ 0 ∧ address < entry.toNat then min lowest entry.toNat else lowest)
      (counted ++ [entry]) := by
  have nonzero : address < entry.toNat → entry ≠ 0 := by
    rintro above rfl
    simp at above
  refine ⟨?_, ?_, ?_⟩
  · intro e member above
    rcases List.mem_append.mp member with before | last
    · have bound := h.below e before above
      split <;> omega
    · obtain rfl := List.mem_singleton.mp last
      rw [if_pos ⟨nonzero above, above⟩]
      exact Nat.min_le_right ..
  · split
    · rename_i above
      by_cases lower : entry.toNat < lowest
      · rw [Nat.min_eq_right (Nat.le_of_lt lower)]
        exact Or.inr ⟨entry, by simp, above.2, rfl⟩
      · rw [Nat.min_eq_left (Nat.le_of_not_lt lower)]
        exact h.found.imp id fun ⟨e, member, same⟩ => ⟨e, List.mem_append_left _ member, same⟩
    · exact h.found.imp id fun ⟨e, member, same⟩ => ⟨e, List.mem_append_left _ member, same⟩
  · intro e member above
    rw [List.dropLast_concat] at member
    have bound := h.below e member above
    rw [List.length_append, List.length_singleton, Nat.add_sub_cancel]
    omega

end Scanned

/-- The scan ends at the end of the words or where a word would begin in a song. -/
theorem scanned_tableLengthFrom {address lowest : Nat} {counted : List UInt16}
    (h : Scanned address lowest counted) (rest : List UInt16) :
    ∃ lowest' taken left, rest = taken ++ left ∧
      tableLengthFrom address lowest counted.length rest = (counted ++ taken).length ∧
      Scanned address lowest' (counted ++ taken) ∧
      (left = [] ∨ lowest' ≤ address + 2 * (counted ++ taken).length) := by
  induction rest generalizing lowest counted with
  | nil => exact ⟨lowest, [], [], rfl, by simp [tableLengthFrom], by simpa using h, Or.inl rfl⟩
  | cons entry rest ih =>
    rw [tableLengthFrom]
    by_cases full : lowest ≤ address + counted.length * 2
    · refine ⟨lowest, [], entry :: rest, rfl, ?_, by simpa using h, Or.inr ?_⟩
      · rw [if_pos full, List.append_nil]
      · rw [List.append_nil]
        omega
    · obtain ⟨lowest', taken, left, split, length, known, ended⟩ :=
        ih (h.push (by omega) entry)
      rw [List.append_assoc, List.singleton_append] at length known ended
      refine ⟨lowest', entry :: taken, left, by rw [split, List.cons_append], ?_, known, ended⟩
      rw [if_neg full, ← length, List.length_append, List.length_singleton]

/-- What is known of the words that are counted in the end. -/
theorem scanned_tableLength (entries : List UInt16) (address : UInt16) :
    let n := tableLength entries address
    n ≤ entries.length ∧ ∃ lowest, Scanned address.toNat lowest (entries.take n) ∧
      (n < entries.length → lowest ≤ address.toNat + 2 * n) := by
  intro n
  obtain ⟨lowest, taken, left, split, length, known, ended⟩ :=
    scanned_tableLengthFrom (Scanned.nil address.toNat) entries
  have counted : n = taken.length := length
  have front : entries.take n = taken := by rw [split, counted, List.take_left]
  refine ⟨by rw [split, List.length_append]; omega, lowest, by rw [front]; exact known, ?_⟩
  intro short
  rcases ended with none | reached
  · rw [split, none, List.append_nil] at short
    omega
  · rw [counted]
    exact reached

/-- No more words are taken than the table has. -/
theorem tableLength_le (entries : List UInt16) (address : UInt16) :
    tableLength entries address ≤ entries.length :=
  (scanned_tableLength entries address).1

/-! ### Tables and their songs -/

/-- A table is counted within its words. It is clear of the songs that it counts unless a song
begins at the last byte of the table or the last word points into the table; without its last word
it is always clear. When words are left, the next one is beyond memory or would not be clear. -/
theorem tableLength_clear_iff {entries : List UInt16} {address : UInt16} {n : Nat}
    (counts : tableLength entries address = n) :
    n ≤ entries.length ∧
    (ClearOfSongs address entries n ↔
      (∀ e ∈ entries.take n, e.toNat + 1 ≠ address.toNat + 2 * n) ∧
        ∀ e ∈ (entries.take n).getLast?, address < e → address.toNat + 2 * n ≤ e.toNat) ∧
    ClearOfSongs address entries (n - 1) ∧
    (n < entries.length →
      0x10000 ≤ address.toNat + 2 * n ∨ ¬ClearOfSongs address entries (n + 1)) := by
  obtain ⟨within, lowest, known, ended⟩ := scanned_tableLength entries address
  rw [counts] at within known ended
  have length : (entries.take n).length = n := List.length_take_of_le within
  have ahead : ∀ e ∈ (entries.take n).dropLast, address < e →
      address.toNat + 2 * (n - 1) < e.toNat := by
    intro e member above
    have bound := known.ahead e member (UInt16.lt_iff_toNat_lt.mp above)
    rwa [length] at bound
  refine ⟨within, ⟨fun clear => ⟨?_, ?_⟩, ?_⟩, ?_, ?_⟩
  · intro e member touching
    have counted : 0 < n := by
      rw [← length]
      exact List.length_pos_of_mem member
    have above : address < e := UInt16.lt_iff_toNat_lt.mpr (by omega)
    have bound := clear e member above
    omega
  · exact fun e last above => clear e (List.mem_of_getLast? last) above
  · rintro ⟨apart, last⟩ e member above
    have filled : entries.take n ≠ [] := List.ne_nil_of_mem member
    rw [← List.dropLast_concat_getLast filled] at member
    rcases List.mem_append.mp member with before | final
    · have bound := ahead e before above
      have off := apart e ((List.dropLast_sublist _).subset before)
      omega
    · refine last e ?_ above
      rw [List.mem_singleton.mp final, List.getLast?_eq_some_getLast filled]
      rfl
  · intro e member above
    have before : e ∈ (entries.take n).dropLast := by
      rw [List.dropLast_eq_take, length, List.take_take]
      rwa [Nat.min_eq_left (Nat.sub_le n 1)]
    exact Nat.le_of_lt (ahead e before above)
  · intro short
    have reached := ended short
    rcases known.found with full | ⟨e, member, above, same⟩
    · exact Or.inl (full ▸ reached)
    · refine Or.inr fun clear => ?_
      have listed := List.take_subset_take_left entries (Nat.le_succ n) member
      have bound := clear e listed (UInt16.lt_iff_toNat_lt.mpr above)
      omega

/-- A song at an odd distance: the second word is counted although its last byte is the first of the
song. -/
theorem odd_song_overlapped :
    let entries : List UInt16 := [0xD003, 0xD00C, 0]
    tableLength entries 0xD000 = 2 ∧ 2 < entries.length ∧ ¬ClearOfSongs 0xD000 entries 2 ∧
      ClearOfSongs 0xD000 entries 1 ∧ ¬ClearOfSongs 0xD000 entries 3 := by
  intro entries
  have counted : tableLength entries 0xD000 = 2 := by decide
  obtain ⟨-, clear, shorter, longer⟩ := tableLength_clear_iff counted
  refine ⟨counted, by decide, ?_, shorter, (longer (by decide)).resolve_left (by decide)⟩
  intro whole
  exact (clear.mp whole).1 0xD003 (by decide) (by decide)

/-- A song in the table itself: the word that points there is counted before it is looked at. -/
example : tableLength [0, 0, 0xD002, 0] 0xD000 = 3 ∧
    ¬ClearOfSongs 0xD000 [0, 0, 0xD002, 0] 3 := by decide

end SnesMusic
