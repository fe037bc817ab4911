/-!
# Blank characters

The characters of the Unicode property White_Space, and trimming by it. The set is wider than the
ASCII blanks of `Char.isWhitespace`: it has the no-break space and the typographic spaces, and it
lacks the zero-width characters.
-/
namespace SnesMusic.Text

/-- Membership in White_Space, as code point ranges. -/
def isBlank (c : Char) : Bool :=
  let n := c.toNat
  (0x09 ≤ n && n ≤ 0x0D) || n == 0x20 || n == 0x85 || n == 0xA0 || n == 0x1680 ||
    (0x2000 ≤ n && n ≤ 0x200A) || n == 0x2028 || n == 0x2029 || n == 0x202F || n == 0x205F ||
    n == 0x3000

/-- The text without the blanks at its two ends. -/
def trim (text : List Char) : List Char :=
  ((text.dropWhile isBlank).reverse.dropWhile isBlank).reverse

@[simp] theorem trim_nil : trim [] = [] := rfl

/-- A text with no blank at either end is left as it is. -/
theorem trim_of_ends {c : Char} {text : List Char} (first : isBlank c = false)
    (last : ∀ d ∈ (c :: text).getLast?, isBlank d = false) : trim (c :: text) = c :: text := by
  have front : (c :: text).dropWhile isBlank = c :: text := by simp [first]
  have back : (c :: text).reverse.dropWhile isBlank = (c :: text).reverse := by
    cases h : (c :: text).reverse with
    | nil => rfl
    | cons d rest =>
      have hd : d ∈ (c :: text).getLast? := by
        rw [List.getLast?_eq_head?_reverse, h]; simp
      simp [last d hd]
  rw [trim, front, back, List.reverse_reverse]

end SnesMusic.Text
