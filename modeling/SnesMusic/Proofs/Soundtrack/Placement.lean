import SnesMusic.Proofs.Bytecode.Size
import SnesMusic.Soundtrack.Save

/-!
# Placed songs

What the placement of a bank's songs yields. Main statements: the songs of other banks are left
alone (`songsOf_ofSongs_of_ne`), those of the bank lie one after the other, each encoded for its
address (`placed_ofSongs`), and together they take the room that was computed for them
(`Placed.songsSpace_eq`).
-/
namespace SnesMusic

open LittleEndian

theorem songsSpace_cons_ok {song : Song} {rest : List Song} {total : Nat}
    (space : songsSpace (song :: rest) = .ok total) :
    ∃ size others, song.requiredSpace = .ok size ∧ songsSpace rest = .ok others ∧
      total = size + others := by
  unfold songsSpace at space
  cases own : song.requiredSpace with
  | error e => simp [own, bind, Except.bind] at space
  | ok size =>
    cases later : songsSpace rest with
    | error e => simp [own, later, bind, Except.bind] at space
    | ok others =>
      simp only [own, later, bind, Except.bind, pure, Except.pure, Except.ok.injEq] at space
      exact ⟨size, others, rfl, rfl, space.symm⟩

theorem songsSpace_append {front behind : List Song} {own others : Nat}
    (alone : songsSpace front = .ok own) (later : songsSpace behind = .ok others) :
    songsSpace (front ++ behind) = .ok (own + others) := by
  induction front generalizing own with
  | nil =>
    rw [songsSpace, Except.ok.injEq] at alone
    rw [← alone, Nat.zero_add]
    exact later
  | cons song rest ih =>
    obtain ⟨size, more, first, next, sum⟩ := songsSpace_cons_ok alone
    rw [List.cons_append, songsSpace, first, ih next, sum, Nat.add_assoc]
    rfl

/-- The songs of a bank among others. -/
def songsOf (bank : Bank) (songs : List Song) : List Song := songs.filter (·.bank == bank)

theorem songsOf_cons_of_eq {bank : Bank} {song : Song} (h : song.bank = bank) (rest : List Song) :
    songsOf bank (song :: rest) = song :: songsOf bank rest := by
  rw [songsOf, List.filter_cons_of_pos (by simp [h])]
  rfl

theorem songsOf_cons_of_ne {bank : Bank} {song : Song} (h : song.bank ≠ bank) (rest : List Song) :
    songsOf bank (song :: rest) = songsOf bank rest := by
  rw [songsOf, List.filter_cons_of_neg (by simp [h])]
  rfl

/-- The song at another address. -/
def Song.movedTo (s : Song) (address : Nat) : Song := { s with address := UInt16.ofNat address }

/-- Songs lie one after the other in memory from `address` on, each encoded for its place: the songs
before and after they are moved there, and their bytes. -/
inductive Placed : Nat → List Song → List Song → List UInt8 → Prop where
  | nil (address : Nat) : Placed address [] [] []
  | cons {address : Nat} {song : Song} {encoding : SongEncoding} {songs moved : List Song}
      {body : List UInt8} (below : address < memorySize)
      (encoded : song.encode (UInt16.ofNat address) = .ok encoding)
      (fits : address + encoding.data.length ≤ memorySize)
      (rest : Placed (address + encoding.data.length) songs moved body) :
      Placed address (song :: songs) (song.movedTo address :: moved) (encoding.data ++ body)

namespace Placed

variable {address : Nat} {songs moved : List Song} {body : List UInt8}

theorem length_eq (h : Placed address songs moved body) : moved.length = songs.length := by
  induction h with
  | nil => rfl
  | cons _ _ _ _ ih => rw [List.length_cons, List.length_cons, ih]

/-- Moving a song changes its address only. -/
theorem map_eq {α : Type} {f : Song → α} (same : ∀ song address, f (song.movedTo address) = f song)
    (h : Placed address songs moved body) : moved.map f = songs.map f := by
  induction h with
  | nil => rfl
  | cons _ _ _ _ ih => rw [List.map_cons, List.map_cons, ih, same]

/-- The first song lies at the beginning. -/
theorem head (h : Placed address songs moved body) :
    ∀ song ∈ moved.head?, song.address.toNat = address := by
  cases h with
  | nil => simp
  | cons below _ _ _ =>
    simp only [List.head?_cons, Option.mem_def, Option.some.injEq, forall_eq', Song.movedTo,
      UInt16.toNat_ofNat']
    exact Nat.mod_eq_of_lt below

/-- Every moved song was there before. -/
theorem origin (h : Placed address songs moved body) :
    ∀ song ∈ moved, ∃ before ∈ songs, ∃ place, song = before.movedTo place := by
  induction h with
  | nil => simp
  | @cons address first encoding songs moved body below encoded fits rest ih =>
    intro song member
    rcases List.mem_cons.mp member with here | later
    · exact ⟨first, List.mem_cons_self .., address, here⟩
    · obtain ⟨before, there, place, same⟩ := ih song later
      exact ⟨before, List.mem_cons_of_mem _ there, place, same⟩

theorem body_eq_nil (h : Placed address songs [] body) : body = [] := by
  cases h
  rfl

/-- The songs take the room that was computed for them. -/
theorem songsSpace_eq (h : Placed address songs moved body) :
    songsSpace songs = .ok body.length := by
  induction h with
  | nil => rfl
  | cons _ encoded _ _ ih =>
    rw [songsSpace, Song.requiredSpace_of_encode encoded, ih, List.length_append]
    rfl

/-- Where a moved song stands. -/
structure Stands (address : Nat) (body : List UInt8) (song : Song) (front : List UInt8)
    (encoding : SongEncoding) (behind : List UInt8) : Prop where
  encoded : song.encode song.address = .ok encoding
  split : body = front ++ (encoding.data ++ behind)
  place : song.address.toNat = address + front.length

/-- Every song is moved behind those in front of it, which take the room that was computed for
them. -/
theorem stands_behind (h : Placed address songs moved body) {k : Nat} {song : Song}
    (found : songs[k]? = some song) :
    ∃ place front encoding behind, moved[k]? = some (song.movedTo place) ∧
      Stands address body (song.movedTo place) front encoding behind ∧
      songsSpace (songs.take k) = .ok front.length := by
  induction h generalizing k with
  | nil => simp at found
  | @cons address first encoding songs moved body below encoded fits rest ih =>
    cases k with
    | zero =>
      simp only [List.getElem?_cons_zero, Option.some.injEq] at found
      subst found
      refine ⟨address, [], encoding, body, rfl, ⟨encoded, rfl, ?_⟩, rfl⟩
      show (UInt16.ofNat address).toNat = address
      rw [UInt16.toNat_ofNat']
      exact Nat.mod_eq_of_lt below
    | succ k =>
      obtain ⟨place, front, own, behind, there, stands, space⟩ := ih found
      refine ⟨place, encoding.data ++ front, own, behind, there, ⟨stands.encoded, ?_, ?_⟩, ?_⟩
      · rw [stands.split, List.append_assoc]
      · rw [stands.place, List.length_append, Nat.add_assoc]
      · rw [List.take_succ_cons, songsSpace, Song.requiredSpace_of_encode encoded, space,
          List.length_append]
        rfl

/-- The songs keep their order. -/
theorem getElem? (h : Placed address songs moved body) {k : Nat} {song : Song}
    (stands : songs[k]? = some song) : ∃ place, moved[k]? = some (song.movedTo place) := by
  obtain ⟨place, -, -, -, there, -⟩ := h.stands_behind stands
  exact ⟨place, there⟩

theorem stands (h : Placed address songs moved body) {k : Nat} {song : Song}
    (found : moved[k]? = some song) :
    ∃ front encoding behind, Stands address body song front encoding behind := by
  have inside : k < songs.length := h.length_eq ▸ (List.getElem?_eq_some_iff.mp found).1
  obtain ⟨place, front, encoding, behind, there, stands, -⟩ :=
    h.stands_behind (List.getElem?_eq_getElem inside)
  rw [found, Option.some.injEq] at there
  exact ⟨front, encoding, behind, there ▸ stands⟩

end Placed

namespace Placement

variable {bank other : Bank} {address : Nat} {songs : List Song}

theorem ofSongs_elsewhere {song : Song} (elsewhere : song.bank ≠ bank) (rest : List Song) :
    ofSongs bank address (song :: rest) =
      { ofSongs bank address rest with songs := song :: (ofSongs bank address rest).songs } := by
  rw [ofSongs, if_pos elsewhere]

theorem ofSongs_here {song : Song} (here : song.bank = bank) (rest : List Song) :
    ofSongs bank address (song :: rest) =
      if memorySize ≤ address then failed (song :: rest) (overflow bank address)
      else match song.encode (UInt16.ofNat address) with
        | .error e => failed (song :: rest) e
        | .ok encoding =>
          if memorySize < address + encoding.data.length then
            failed (song :: rest) (overflow bank (address + encoding.data.length))
          else cons (song.movedTo address) encoding.data
            (ofSongs bank (address + encoding.data.length) rest) := by
  rw [ofSongs, if_neg (not_not_intro here)]
  rfl

/-- The songs of other banks keep their places and addresses. -/
theorem songsOf_ofSongs_of_ne (ne : other ≠ bank) :
    songsOf other (ofSongs bank address songs).songs = songsOf other songs := by
  induction songs generalizing address with
  | nil => rfl
  | cons song rest ih =>
    by_cases here : song.bank = bank
    · have apart : song.bank ≠ other := fun same => ne (same.symm.trans here)
      rw [ofSongs_here here]
      split
      · rfl
      · cases song.encode (UInt16.ofNat address) with
        | error e => rfl
        | ok encoding =>
          simp only
          split
          · rfl
          · have moved : (song.movedTo address).bank ≠ other := apart
            rw [cons, songsOf_cons_of_ne moved, songsOf_cons_of_ne apart, ih]
    · rw [ofSongs_elsewhere here]
      by_cases wanted : song.bank = other
      · rw [songsOf_cons_of_eq wanted, songsOf_cons_of_eq wanted, ih]
      · rw [songsOf_cons_of_ne wanted, songsOf_cons_of_ne wanted, ih]

/-- A placement that succeeds lays the songs of its bank out from `address` on. -/
theorem placed_ofSongs (ok : (ofSongs bank address songs).outcome = .ok ()) :
    Placed address (songsOf bank songs) (songsOf bank (ofSongs bank address songs).songs)
      (ofSongs bank address songs).body := by
  induction songs generalizing address with
  | nil => exact .nil address
  | cons song rest ih =>
    by_cases here : song.bank = bank
    · rw [ofSongs_here here] at ok ⊢
      by_cases full : memorySize ≤ address
      · simp [full, failed] at ok
      · rw [if_neg full] at ok ⊢
        cases encoded : song.encode (UInt16.ofNat address) with
        | error e => simp [encoded, failed] at ok
        | ok encoding =>
          simp only [encoded] at ok ⊢
          by_cases late : memorySize < address + encoding.data.length
          · simp [late, failed] at ok
          · rw [if_neg late] at ok ⊢
            have moved : (song.movedTo address).bank = bank := here
            rw [cons, songsOf_cons_of_eq here, songsOf_cons_of_eq moved]
            exact .cons (Nat.lt_of_not_le full) encoded (Nat.le_of_not_lt late) (ih ok)
    · rw [ofSongs_elsewhere here] at ok ⊢
      rw [songsOf_cons_of_ne here, songsOf_cons_of_ne here]
      exact ih ok

/-- The table lists the addresses of the songs. -/
theorem table_ofSongs (ok : (ofSongs bank address songs).outcome = .ok ()) :
    (ofSongs bank address songs).table =
      ((songsOf bank (ofSongs bank address songs).songs).map (·.address)).flatMap bytes := by
  induction songs generalizing address with
  | nil => rfl
  | cons song rest ih =>
    by_cases here : song.bank = bank
    · rw [ofSongs_here here] at ok ⊢
      by_cases full : memorySize ≤ address
      · simp [full, failed] at ok
      · rw [if_neg full] at ok ⊢
        cases encoded : song.encode (UInt16.ofNat address) with
        | error e => simp [encoded, failed] at ok
        | ok encoding =>
          simp only [encoded] at ok ⊢
          by_cases late : memorySize < address + encoding.data.length
          · simp [late, failed] at ok
          · rw [if_neg late] at ok ⊢
            have moved : (song.movedTo address).bank = bank := here
            rw [cons, songsOf_cons_of_eq moved, List.map_cons, List.flatMap_cons]
            exact congrArg (bytes (song.movedTo address).address ++ ·) (ih ok)
    · rw [ofSongs_elsewhere here] at ok ⊢
      rw [songsOf_cons_of_ne here]
      exact ih ok

end Placement
end SnesMusic
