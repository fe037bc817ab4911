import SnesMusic.Image

/-!
# Reading what was written

Main statements: bytes are read from where they stand (`readBytes_of_has`), they stand where they
were written (`has_of_writeBytes`), and two images of one size that agree on a range are read alike
there (`readBytes_congr`).
-/
namespace SnesMusic.Image

open LittleEndian

/-! ### Bytes in place -/

/-- The bytes stand in the image from `offset` on. -/
def Has (image : Image) (offset : Nat) (bytes : List UInt8) : Prop :=
  ∀ k < bytes.length, image.data[offset + k]? = bytes[k]?

variable {image written : Image} {offset : Nat} {bytes a b : List UInt8}

theorem Has.left (h : image.Has offset (a ++ b)) : image.Has offset a := by
  intro k inside
  rw [h k (by rw [List.length_append]; omega), List.getElem?_append_left inside]

theorem Has.right (h : image.Has offset (a ++ b)) : image.Has (offset + a.length) b := by
  intro k inside
  have stands := h (a.length + k) (by rw [List.length_append]; omega)
  rw [Nat.add_assoc, stands, List.getElem?_append_right (Nat.le_add_right _ _),
    Nat.add_sub_cancel_left]

theorem Has.getElem? (h : image.Has offset bytes) {i : Nat} (low : offset ≤ i)
    (high : i < offset + bytes.length) : image.data[i]? = bytes[i - offset]? := by
  rw [← h (i - offset) (by omega), Nat.add_sub_cancel' low]

theorem Has.size_ge (h : image.Has offset bytes) (ne : bytes ≠ []) :
    offset + bytes.length ≤ image.size := by
  have positive := List.length_pos_iff.mpr ne
  have last := h (bytes.length - 1) (by omega)
  rw [List.getElem?_eq_getElem (by omega : bytes.length - 1 < bytes.length)] at last
  have inside := (Array.getElem?_eq_some_iff.mp last).1
  unfold size
  omega

/-- Nothing is wrong with an access to bytes that stand there. -/
theorem Has.fault? (h : image.Has offset bytes) (ne : bytes ≠ []) :
    image.fault? offset bytes.length = none := by
  have inside := h.size_ge ne
  have positive := List.length_pos_iff.mpr ne
  rw [Image.fault?, if_neg (by omega), if_pos inside]

theorem readBytes_of_has (h : image.Has offset bytes) (ne : bytes ≠ []) :
    image.readBytes offset bytes.length = .ok bytes := by
  have inside := h.size_ge ne
  unfold size at inside
  rw [readBytes, h.fault? ne]
  refine congrArg Except.ok (List.ext_getElem? fun k => ?_)
  rw [slice, Array.getElem?_toList]
  by_cases below : k < bytes.length
  · rw [Array.getElem?_extract, if_pos (by omega)]
    exact h k below
  · rw [List.getElem?_eq_none (by omega), Array.getElem?_extract, if_neg (by omega)]

theorem fault?_of_readBytes {length : Nat} (h : image.readBytes offset length = .ok bytes) :
    image.fault? offset length = none := by
  unfold readBytes at h
  cases fault : image.fault? offset length with
  | some e => simp [fault] at h
  | none => rfl

theorem readBytes_of_fault? {length : Nat} (h : image.fault? offset length = none) :
    image.readBytes offset length = .ok (image.slice offset length) := by
  rw [readBytes, h]

theorem fits_of_fault? {length : Nat} (h : image.fault? offset length = none) :
    image.size ≠ 0 ∧ offset + length ≤ image.size := by
  unfold Image.fault? at h
  by_cases empty : image.size = 0
  · simp [empty] at h
  · by_cases fits : offset + length ≤ image.size
    · exact ⟨empty, fits⟩
    · simp [empty, fits] at h

/-- The only failures of an access are that the image is missing or ends too early. -/
theorem fault?_ne_overflow (image : Image) (offset length : Nat) {store : Store}
    {needed limit : Nat} : image.fault? offset length ≠ some (.overflow store needed limit) := by
  unfold Image.fault?
  split
  · simp
  · split <;> simp

theorem length_of_readBytes {length : Nat} (h : image.readBytes offset length = .ok bytes) :
    bytes.length = length := by
  have fine := fault?_of_readBytes h
  have fits := (fits_of_fault? fine).2
  rw [readBytes_of_fault? fine, Except.ok.injEq] at h
  unfold size at fits
  rw [← h, slice, Array.length_toList, Array.size_extract]
  omega

/-- Bytes that are read stand where they are read from. -/
theorem has_of_readBytes {length : Nat} (h : image.readBytes offset length = .ok bytes) :
    image.Has offset bytes := by
  have count := length_of_readBytes h
  have fine := fault?_of_readBytes h
  have fits := (fits_of_fault? fine).2
  rw [readBytes_of_fault? fine, Except.ok.injEq] at h
  unfold size at fits
  intro k inside
  rw [← h, slice, Array.getElem?_toList, Array.getElem?_extract, if_pos (by omega)]

theorem readWord_of_has {low high : UInt8} (h : image.Has offset [low, high]) :
    image.readWord offset = .ok (word low high) := by
  have first := h 0 (by simp)
  have second := h 1 (by simp)
  have fine := h.fault? (by simp)
  simp only [Nat.add_zero, List.getElem?_cons_zero, List.getElem?_cons_succ] at first second
  rw [readWord, show image.fault? offset 2 = none from fine]
  simp [Array.getD_eq_getD_getElem?, first, second]

/-- Words are read from where their bytes stand. -/
theorem readWord_of_has_bytes {w : UInt16} (h : image.Has offset (LittleEndian.bytes w)) :
    image.readWord offset = .ok w :=
  (readWord_of_has h).trans (congrArg Except.ok (word_bytes w))

/-- The induction is on the words in front. -/
theorem readWord_of_has_words {ws : List UInt16} {behind : List UInt8}
    (h : image.Has offset (ws.flatMap LittleEndian.bytes ++ behind)) {i : Nat} {w : UInt16}
    (stands : ws[i]? = some w) : image.readWord (offset + 2 * i) = .ok w := by
  induction ws generalizing offset i with
  | nil => simp at stands
  | cons first rest ih =>
    rw [List.flatMap_cons, List.append_assoc] at h
    cases i with
    | zero =>
      rw [List.getElem?_cons_zero, Option.some.injEq] at stands
      subst stands
      exact readWord_of_has_bytes h.left
    | succ i =>
      rw [show offset + 2 * (i + 1) = offset + 2 + 2 * i by omega]
      exact ih h.right stands

/-! ### Writing -/

theorem writeBytes_ok (h : image.writeBytes offset bytes = .ok written) :
    written.data = patch image.data offset bytes ∧ image.size ≠ 0 ∧
      offset + bytes.length ≤ image.size := by
  unfold writeBytes at h
  cases fault : image.fault? offset bytes.length with
  | some e => simp [fault] at h
  | none =>
    simp only [fault, Except.ok.injEq] at h
    exact ⟨by rw [← h], fits_of_fault? fault⟩

theorem has_of_writeBytes (h : image.writeBytes offset bytes = .ok written) :
    written.Has offset bytes := by
  obtain ⟨data, -, fits⟩ := writeBytes_ok h
  intro k inside
  rw [data]
  exact getElem?_patch_of_inside _ _ _ inside fits

theorem getElem?_writeBytes_of_outside (h : image.writeBytes offset bytes = .ok written) {i : Nat}
    (outside : i < offset ∨ offset + bytes.length ≤ i) : written.data[i]? = image.data[i]? := by
  rw [(writeBytes_ok h).1]
  exact getElem?_patch_of_outside _ _ _ outside

/-! ### Images that agree -/

/-- Two images have the same size and the same bytes in a range. -/
structure Agree (image other : Image) (start stop : Nat) : Prop where
  size : image.size = other.size
  data : ∀ i, start ≤ i → i < stop → image.data[i]? = other.data[i]?

variable {other third : Image} {start stop : Nat}

theorem Agree.refl (image : Image) (start stop : Nat) : Agree image image start stop :=
  ⟨rfl, fun _ _ _ => rfl⟩

theorem Agree.symm (h : Agree image other start stop) : Agree other image start stop :=
  ⟨h.size.symm, fun i low high => (h.data i low high).symm⟩

theorem Agree.mono (h : Agree image other start stop) {start' stop' : Nat} (low : start ≤ start')
    (high : stop' ≤ stop) : Agree image other start' stop' :=
  ⟨h.size, fun i above below => h.data i (Nat.le_trans low above) (Nat.lt_of_lt_of_le below high)⟩

theorem Agree.locate (h : Agree image other start stop) (offset : Nat) :
    image.locate offset = other.locate offset := by
  rw [Image.locate, Image.locate, headerOffset, headerOffset, h.size]

theorem Agree.has (h : Agree image other start stop) (low : start ≤ offset)
    (high : offset + bytes.length ≤ stop) (has : other.Has offset bytes) :
    image.Has offset bytes := by
  intro k inside
  rw [h.data _ (by omega) (by omega)]
  exact has k inside

/-- What begins with bytes that images agree on stands in both, with other bytes behind. -/
theorem Agree.has_append (h : Agree image other offset (offset + a.length))
    (has : other.Has offset (a ++ b)) :
    ∃ c, c.length = b.length ∧ image.Has offset (a ++ c) := by
  have length : (image.slice (offset + a.length) b.length).length = b.length := by
    have inside : b ≠ [] → offset + (a.length + b.length) ≤ image.data.size := by
      intro ne
      have inside := has.size_ge (by simp [ne])
      rw [← h.size, List.length_append] at inside
      exact inside
    rw [slice, Array.length_toList, Array.size_extract]
    by_cases ne : b = []
    · rw [ne, List.length_nil]
      omega
    · have bound := inside ne
      omega
  refine ⟨_, length, fun k within => ?_⟩
  rw [List.length_append, length] at within
  rw [slice, Array.length_toList, Array.size_extract] at length
  by_cases front : k < a.length
  · rw [List.getElem?_append_left front, h.data _ (by omega) (by omega),
      has k (by rw [List.length_append]; omega), List.getElem?_append_left front]
  · rw [List.getElem?_append_right (by omega), slice, Array.getElem?_toList,
      Array.getElem?_extract, if_pos (by omega)]
    congr 1
    omega

theorem Agree.fault? (h : Agree image other start stop) (offset length : Nat) :
    image.fault? offset length = other.fault? offset length := by
  rw [Image.fault?, Image.fault?, h.size]

theorem readBytes_congr (h : Agree image other start stop) {length : Nat} (low : start ≤ offset)
    (high : offset + length ≤ stop) :
    image.readBytes offset length = other.readBytes offset length := by
  rw [readBytes, readBytes, h.fault?]
  cases other.fault? offset length with
  | some e => rfl
  | none =>
    refine congrArg Except.ok (List.ext_getElem? fun k => ?_)
    have size : image.data.size = other.data.size := h.size
    rw [slice, slice, Array.getElem?_toList, Array.getElem?_toList, Array.getElem?_extract,
      Array.getElem?_extract, size]
    split
    · exact h.data _ (by omega) (by omega)
    · rfl

theorem readWord_congr (h : Agree image other start stop) (low : start ≤ offset)
    (high : offset + 2 ≤ stop) : image.readWord offset = other.readWord offset := by
  rw [readWord, readWord, h.fault?, Array.getD_eq_getD_getElem?, Array.getD_eq_getD_getElem?,
    Array.getD_eq_getD_getElem?, Array.getD_eq_getD_getElem?, h.data _ low (by omega),
    h.data (offset + 1) (by omega) (by omega)]

/-! ### Images that differ in a region -/

/-- Two images have the same size and the same bytes outside a region. -/
structure Frame (image other : Image) (region : Nat → Prop) : Prop where
  size : image.size = other.size
  data : ∀ i, ¬region i → image.data[i]? = other.data[i]?

variable {region region' : Nat → Prop}

theorem Frame.refl (image : Image) (region : Nat → Prop) : Frame image image region :=
  ⟨rfl, fun _ _ => rfl⟩

theorem Frame.trans (h : Frame image other region) (h' : Frame other third region) :
    Frame image third region :=
  ⟨h.size.trans h'.size, fun i off => (h.data i off).trans (h'.data i off)⟩

theorem Frame.mono (h : Frame image other region) (le : ∀ i, region i → region' i) :
    Frame image other region' :=
  ⟨h.size, fun i off => h.data i fun inside => off (le i inside)⟩

/-- Images agree on ranges apart from the region. -/
theorem Frame.agree (h : Frame image other region)
    (apart : ∀ i, start ≤ i → i < stop → ¬region i) : Agree image other start stop :=
  ⟨h.size, fun i low high => h.data i (apart i low high)⟩

theorem Frame.headerOffset (h : Frame image other region) :
    image.headerOffset = other.headerOffset := by
  rw [Image.headerOffset, Image.headerOffset, h.size]

/-- A write changes nothing outside its range, if it is made at all. -/
theorem frame_tryWrite (image : Image) (offset : Nat) (bytes : List UInt8) :
    Frame (image.tryWrite offset bytes).image image
      (fun i => offset ≤ i ∧ i < offset + bytes.length) := by
  unfold tryWrite
  cases written : image.writeBytes offset bytes with
  | error e => exact .refl _ _
  | ok other =>
    refine ⟨size_of_writeBytes written, ?_⟩
    intro i outside
    exact getElem?_writeBytes_of_outside written (by omega)

theorem has_of_tryWrite (ok : (image.tryWrite offset bytes).outcome = .ok ()) :
    (image.tryWrite offset bytes).image.Has offset bytes := by
  unfold tryWrite at ok ⊢
  cases written : image.writeBytes offset bytes with
  | error e => simp [written] at ok
  | ok other => exact has_of_writeBytes written

theorem outcome_tryWrite (inside : offset + bytes.length ≤ image.size) (filled : image.size ≠ 0) :
    (image.tryWrite offset bytes).outcome = .ok () := by
  rw [tryWrite, writeBytes, Image.fault?, if_neg filled, if_pos inside]

/-- Pointing a bank elsewhere changes no more than its three address bytes. -/
theorem frame_writePointer (image : Image) (place : PointerBytes) (target : Nat) :
    Frame (image.writePointer place target).image image
      (fun i => i = image.locate place.low ∨ i = image.locate place.mid ∨
        i = image.locate place.bank) := by
  have step : ∀ (w : Written) (offset : Nat) (byte : UInt8),
      Frame w.image image (fun i => i = image.locate place.low ∨ i = image.locate place.mid ∨
        i = image.locate place.bank) →
      offset = place.low ∨ offset = place.mid ∨ offset = place.bank →
      Frame (w.andThen fun i => i.tryWrite (i.locate offset) [byte]).image image
        (fun i => i = image.locate place.low ∨ i = image.locate place.mid ∨
          i = image.locate place.bank) := by
    intro w offset byte before known
    unfold Written.andThen
    cases w.outcome with
    | error e => exact before
    | ok u =>
      refine Frame.trans ((frame_tryWrite _ _ _).mono ?_) before
      intro i ⟨low, high⟩
      have here : i = image.locate offset := by
        rw [Image.locate, before.headerOffset, List.length_singleton] at *
        omega
      rcases known with rfl | rfl | rfl
      · exact Or.inl here
      · exact Or.inr (Or.inl here)
      · exact Or.inr (Or.inr here)
  unfold writePointer
  cases image.readByte (image.locate place.mid) with
  | error e => exact .refl _ _
  | ok mid =>
    refine step _ _ _ (step _ _ _ ((frame_tryWrite _ _ _).mono ?_) (Or.inr (Or.inl rfl)))
      (Or.inr (Or.inr rfl))
    intro i ⟨low, high⟩
    rw [List.length_singleton] at high
    exact Or.inl (by omega)

/-- Pointing a bank elsewhere succeeds in an image that has the three bytes. -/
theorem outcome_writePointer {place : PointerBytes} (target : Nat)
    (low : image.locate place.low < image.size) (mid : image.locate place.mid < image.size)
    (bank : image.locate place.bank < image.size) :
    (image.writePointer place target).outcome = .ok () := by
  have read : image.readByte (image.locate place.mid) =
      .ok (image.data.getD (image.locate place.mid) 0) := by
    rw [readByte, Image.fault?, if_neg (by omega), if_pos (by omega)]
  have step : ∀ (w : Written) (offset : Nat) (byte : UInt8), w.outcome = .ok () →
      w.image.size = image.size → image.locate offset < image.size →
      (w.andThen fun i => i.tryWrite (i.locate offset) [byte]).outcome = .ok () ∧
        (w.andThen fun i => i.tryWrite (i.locate offset) [byte]).image.size = image.size := by
    intro w offset byte ok size inside
    have place : w.image.locate offset = image.locate offset := by
      rw [Image.locate, Image.locate, headerOffset, headerOffset, size]
    rw [Written.andThen, ok]
    refine ⟨outcome_tryWrite ?_ (by omega), ?_⟩
    · rw [place, size, List.length_singleton]
      omega
    · rw [(frame_tryWrite _ _ _).size, size]
  rw [writePointer, read]
  have first := fun byte => step { image, outcome := .ok () } place.low byte rfl rfl low
  have second := fun byte byte' => step _ place.mid byte' (first byte).1 (first byte).2 mid
  exact (step _ place.bank _ (second _ _).1 (second _ _).2 bank).1

end SnesMusic.Image
