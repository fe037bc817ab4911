/-!
# Little-endian words

Words of two and four bytes, low byte first. Main statements: a word is read back from the bytes it
is written as, and the bytes are read back from the word.
-/
namespace SnesMusic.LittleEndian

/-- The word with the given low and high bytes. -/
def word (low high : UInt8) : UInt16 :=
  UInt16.ofNat (low.toNat + 256 * high.toNat)

def lowByte (w : UInt16) : UInt8 := UInt8.ofNat w.toNat

def highByte (w : UInt16) : UInt8 := UInt8.ofNat (w.toNat / 256)

/-- The two bytes of a word. -/
def bytes (w : UInt16) : List UInt8 := [lowByte w, highByte w]

/-- The four bytes of a double word. -/
def longBytes (w : UInt32) : List UInt8 :=
  [UInt8.ofNat w.toNat, UInt8.ofNat (w.toNat / 256), UInt8.ofNat (w.toNat / 65536),
    UInt8.ofNat (w.toNat / 16777216)]

/-- The double word with the given bytes, lowest first. -/
def long (a b c d : UInt8) : UInt32 :=
  UInt32.ofNat (a.toNat + 256 * (b.toNat + 256 * (c.toNat + 256 * d.toNat)))

/-- The words of a byte string; a last odd byte is dropped. -/
def words : List UInt8 → List UInt16
  | low :: high :: rest => word low high :: words rest
  | _ => []

@[simp] theorem length_bytes (w : UInt16) : (bytes w).length = 2 := rfl

@[simp] theorem length_longBytes (w : UInt32) : (longBytes w).length = 4 := rfl

theorem toNat_word (low high : UInt8) : (word low high).toNat = low.toNat + 256 * high.toNat := by
  have hl := low.toNat_lt
  have hh := high.toNat_lt
  simp only [word, UInt16.toNat_ofNat']
  omega

@[simp] theorem word_bytes (w : UInt16) : word (lowByte w) (highByte w) = w := by
  have hw := w.toNat_lt
  apply UInt16.toNat.inj
  simp only [toNat_word, lowByte, highByte, UInt8.toNat_ofNat']
  omega

@[simp] theorem lowByte_word (low high : UInt8) : lowByte (word low high) = low := by
  have hl := low.toNat_lt
  apply UInt8.toNat.inj
  simp only [lowByte, toNat_word, UInt8.toNat_ofNat']
  omega

@[simp] theorem highByte_word (low high : UInt8) : highByte (word low high) = high := by
  have hl := low.toNat_lt
  have hh := high.toNat_lt
  apply UInt8.toNat.inj
  simp only [highByte, toNat_word, UInt8.toNat_ofNat']
  omega

@[simp] theorem words_bytes_append (w : UInt16) (rest : List UInt8) :
    words (bytes w ++ rest) = w :: words rest := by
  simp [bytes, words]

theorem long_longBytes (w : UInt32) :
    long (UInt8.ofNat w.toNat) (UInt8.ofNat (w.toNat / 256)) (UInt8.ofNat (w.toNat / 65536))
      (UInt8.ofNat (w.toNat / 16777216)) = w := by
  have hw := w.toNat_lt
  apply UInt32.toNat.inj
  simp only [long, UInt32.toNat_ofNat', UInt8.toNat_ofNat']
  omega

end SnesMusic.LittleEndian
